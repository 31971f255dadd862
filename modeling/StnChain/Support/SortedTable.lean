import Mathlib.Algebra.GroupWithZero.Nat
import Mathlib.Algebra.Order.BigOperators.Group.List
import Mathlib.Data.List.Nodup
import Mathlib.Data.List.TakeWhile

/-!
# Tables sorted by key

A table is a list of entries with strictly increasing keys, searched and
extended by one scan from its front.  `find` is the search, which stops at the
first larger key; `insert` puts an entry where the scan stops.  `total` sums a
weight over the entries, and each way of changing a table says what it does to
the total and that it keeps the table sorted.
-/

namespace SortedTable

variable {α κ : Type*} [LinearOrder κ] (key : α → κ)

/-- The keys increase strictly, so no key occurs twice. -/
def Sorted (xs : List α) : Prop :=
  xs.Pairwise fun x y => key x < key y

/-- The entries a scan for `k` passes over. -/
def below (k : κ) (xs : List α) : List α :=
  xs.takeWhile fun x => key x < k

/-- The entries from the one at which a scan for `k` stops. -/
def above (k : κ) (xs : List α) : List α :=
  xs.dropWhile fun x => key x < k

/-- Put an entry where the scan for its key stops. -/
def insert (d : α) (xs : List α) : List α :=
  below key (key d) xs ++ d :: above key (key d) xs

/-- The entry with key `k`, if the scan meets one before a larger key. -/
def find (k : κ) : List α → Option α
  | [] => none
  | x :: xs => if key x = k then some x else if k < key x then none else find k xs

/-- The sum of a weight over a table. -/
def total (weight : α → ℕ) (xs : List α) : ℕ :=
  (xs.map weight).sum

variable {key} {k : κ} {xs : List α}

theorem below_append_above : below key k xs ++ above key k xs = xs :=
  List.takeWhile_append_dropWhile

theorem lt_of_mem_below {x : α} (h : x ∈ below key k xs) : key x < k := by
  simpa using List.mem_takeWhile_imp h

theorem not_lt_head_above {x : α} {rest : List α} (h : above key k xs = x :: rest) :
    ¬ key x < k := by
  have hrest : xs.dropWhile (fun x => decide (key x < k)) = x :: rest := h
  have hne : xs.dropWhile (fun x => decide (key x < k)) ≠ [] := by simp [hrest]
  have hhead := List.head_dropWhile_not (fun x => decide (key x < k)) hne
  simp only [hrest, List.head_cons, decide_eq_false_iff_not] at hhead
  exact hhead

/-- The scan stops at the entry whose index is the number it passed over. -/
theorem getElem?_length_below {x : α} {rest : List α} (h : above key k xs = x :: rest) :
    xs[(below key k xs).length]? = some x := by
  have hsplit : below key k xs ++ above key k xs = xs := below_append_above
  rw [h] at hsplit
  have hstop : (below key k xs ++ x :: rest)[(below key k xs).length]? = some x := by simp
  rwa [hsplit] at hstop

/-- Every entry from the stopping point on has at least the key searched for. -/
theorem Sorted.le_of_mem_above (hs : Sorted key xs) {x : α}
    (hx : x ∈ above key k xs) : k ≤ key x := by
  rcases hrest : above key k xs with _ | ⟨y, rest⟩
  · simp [hrest] at hx
  have hy : k ≤ key y := not_lt.mp (not_lt_head_above hrest)
  have hsub : (above key k xs).Pairwise fun x y => key x < key y :=
    hs.sublist (List.dropWhile_sublist _)
  rw [hrest] at hx hsub
  rcases List.mem_cons.mp hx with rfl | hx
  · exact hy
  · exact hy.trans (le_of_lt (List.rel_of_pairwise_cons hsub hx))

/-- A scan from the back for a key the table lacks stops where the scan from the front does. -/
theorem Sorted.rtakeWhile_eq_above (hs : Sorted key xs) (hnew : ∀ x ∈ xs, key x ≠ k) :
    (xs.reverse.takeWhile fun x => decide (k < key x)).reverse = above key k xs := by
  have hlarger : ∀ x ∈ (above key k xs).reverse, decide (k < key x) = true := by
    intro x hx
    have habove := List.mem_reverse.mp hx
    have hmem : x ∈ xs := (List.dropWhile_sublist _).subset habove
    exact decide_eq_true (lt_of_le_of_ne (hs.le_of_mem_above habove) (hnew x hmem).symm)
  have hsmaller : (below key k xs).reverse.takeWhile (fun x => decide (k < key x)) = [] := by
    rw [List.takeWhile_eq_nil_iff]
    intro hlength hlast
    have hmem := List.mem_reverse.mp (List.getElem_mem hlength)
    exact absurd (of_decide_eq_true hlast) (not_lt.mpr (lt_of_mem_below hmem).le)
  have hsplit : xs.reverse = (above key k xs).reverse ++ (below key k xs).reverse := by
    rw [← List.reverse_append, below_append_above]
  rw [hsplit, List.takeWhile_append_of_pos hlarger, hsmaller, List.append_nil,
    List.reverse_reverse]

theorem sorted_iff_pairwise_map : Sorted key xs ↔ (xs.map key).Pairwise (· < ·) :=
  List.pairwise_map.symm

theorem Sorted.nodup_map (hs : Sorted key xs) : (xs.map key).Nodup :=
  (sorted_iff_pairwise_map.mp hs).imp ne_of_lt

/-- A key belongs to at most one entry. -/
theorem Sorted.eq_of_key_eq (hs : Sorted key xs) {x y : α} (hx : x ∈ xs) (hy : y ∈ xs)
    (h : key x = key y) : x = y :=
  List.inj_on_of_nodup_map hs.nodup_map hx hy h

/-- The scan for the key of an entry stops at the entry. -/
theorem Sorted.getElem?_length_below (hs : Sorted key xs) {x : α} (hx : x ∈ xs) :
    xs[(below key (key x) xs).length]? = some x := by
  have habove : x ∈ above key (key x) xs := by
    have hsplit : below key (key x) xs ++ above key (key x) xs = xs := below_append_above
    rw [← hsplit] at hx
    rcases List.mem_append.mp hx with hbelow | habove
    · exact absurd (lt_of_mem_below hbelow) (lt_irrefl _)
    · exact habove
  cases hrest : above key (key x) xs with
  | nil =>
      rw [hrest] at habove
      cases habove
  | cons y rest =>
      rw [hrest] at habove
      rcases List.mem_cons.mp habove with rfl | hlater
      · exact SortedTable.getElem?_length_below hrest
      · have htail : Sorted key (y :: rest) := by
          rw [← hrest]
          exact hs.sublist (List.dropWhile_sublist _)
        have hlt : key y < key x := (List.pairwise_cons.mp htail).1 x hlater
        exact absurd hlt (not_lt_head_above hrest)

/-! ## Changing a table -/

/-- A table is still sorted after its entries change without their keys. -/
theorem Sorted.of_map_key_eq {ys : List α} (hs : Sorted key xs)
    (h : ys.map key = xs.map key) : Sorted key ys := by
  rw [sorted_iff_pairwise_map, h]
  exact sorted_iff_pairwise_map.mp hs

/-- Inserting a key the scan does not meet keeps the table sorted. -/
theorem Sorted.insert {d : α} (hs : Sorted key xs)
    (hnew : ∀ x rest, above key (key d) xs = x :: rest → key x ≠ key d) :
    Sorted key (insert key d xs) := by
  have hbelow : Sorted key (below key (key d) xs) :=
    hs.sublist (List.takeWhile_sublist _)
  have habove : Sorted key (above key (key d) xs) :=
    hs.sublist (List.dropWhile_sublist _)
  have hgt : ∀ y ∈ above key (key d) xs, key d < key y := by
    intro y hy
    rcases hrest : above key (key d) xs with _ | ⟨x, rest⟩
    · simp [hrest] at hy
    have hx : key d < key x :=
      lt_of_le_of_ne (not_lt.mp (not_lt_head_above hrest)) (hnew x rest hrest).symm
    rw [hrest] at hy habove
    rcases List.mem_cons.mp hy with rfl | hy
    · exact hx
    · exact hx.trans (List.rel_of_pairwise_cons habove hy)
  refine List.pairwise_append.mpr ⟨hbelow, List.pairwise_cons.mpr ⟨hgt, habove⟩, ?_⟩
  intro x hx y hy
  rcases List.mem_cons.mp hy with rfl | hy
  · exact lt_of_mem_below hx
  · exact (lt_of_mem_below hx).trans (hgt y hy)

theorem mem_insert {d x : α} : x ∈ insert key d xs ↔ x = d ∨ x ∈ xs := by
  have hxs : x ∈ xs ↔ x ∈ below key (key d) xs ∨ x ∈ above key (key d) xs := by
    rw [← List.mem_append, below_append_above]
  simp only [insert, List.mem_append, List.mem_cons, hxs]
  tauto

@[simp]
theorem length_insert (d : α) : (insert key d xs).length = xs.length + 1 := by
  have hsplit : below key (key d) xs ++ above key (key d) xs = xs := below_append_above
  have hlen := congrArg List.length hsplit
  simp only [List.length_append] at hlen
  simp only [insert, List.length_append, List.length_cons]
  omega

theorem total_append (weight : α → ℕ) (ys : List α) :
    total weight (xs ++ ys) = total weight xs + total weight ys := by
  simp [total]

theorem total_cons (weight : α → ℕ) (x : α) :
    total weight (x :: xs) = weight x + total weight xs := by
  simp [total]

theorem total_insert (weight : α → ℕ) (d : α) :
    total weight (insert key d xs) = total weight xs + weight d := by
  have hsplit : below key (key d) xs ++ above key (key d) xs = xs := below_append_above
  have htotal := congrArg (total weight) hsplit
  rw [total_append] at htotal
  rw [insert, total_append, total_cons]
  omega

/-- Changing one entry changes the total by the change of its weight. -/
theorem total_modify (weight : α → ℕ) {i : ℕ} {x : α} (f : α → α)
    (hx : xs[i]? = some x) :
    total weight (xs.modify i f) + weight x = total weight xs + weight (f x) := by
  obtain ⟨hi, rfl⟩ := List.getElem?_eq_some_iff.mp hx
  have hxs : xs = xs.take i ++ xs[i] :: xs.drop (i + 1) := by simp
  have htotal := congrArg (total weight) hxs
  rw [total_append, total_cons] at htotal
  rw [List.modify_eq_take_cons_drop hi, total_append, total_cons]
  omega

omit [LinearOrder κ] in
/-- Changing entries but not their keys. -/
theorem map_key_modify {i : ℕ} {f : α → α} (hf : ∀ x, key (f x) = key x) :
    (xs.modify i f).map key = xs.map key := by
  apply List.ext_getElem
  · simp
  · intro j hj hj'
    simp only [List.getElem_map, List.getElem_modify]
    split <;> simp [hf]

theorem Sorted.modify (hs : Sorted key xs) {i : ℕ} {f : α → α}
    (hf : ∀ x, key (f x) = key x) : Sorted key (xs.modify i f) :=
  hs.of_map_key_eq (map_key_modify hf)

/-! ## Where a scan stops -/

theorem length_below_le : (below key k xs).length ≤ xs.length :=
  (List.takeWhile_sublist _).length_le

theorem getElem?_stop : xs[(below key k xs).length]? = (above key k xs).head? := by
  cases habove : above key k xs with
  | nil =>
      have hall : below key k xs = xs := by
        rw [← List.append_nil (below key k xs), ← habove]
        exact below_append_above
      rw [hall]
      exact List.getElem?_eq_none (Nat.le_refl _)
  | cons x rest => exact getElem?_length_below habove

theorem insert_eq_take_drop (d : α) :
    insert key d xs =
      xs.take (below key (key d) xs).length ++ d :: xs.drop (below key (key d) xs).length := by
  have hsplit : below key (key d) xs ++ above key (key d) xs = xs := below_append_above
  have htake : xs.take (below key (key d) xs).length = below key (key d) xs :=
    List.prefix_iff_eq_take.mp ⟨_, hsplit⟩ |>.symm
  have hdrop : xs.drop (below key (key d) xs).length = above key (key d) xs := by
    rw [← List.append_cancel_left_eq (below key (key d) xs), hsplit]
    nth_rewrite 1 [← htake]
    exact List.take_append_drop _ _
  rw [insert, htake, hdrop]

/-- Changing entries but not their keys leaves the place where a scan stops. -/
theorem length_below_modify {i : ℕ} {f : α → α} (hf : ∀ x, key (f x) = key x) :
    (below key k (xs.modify i f)).length = (below key k xs).length := by
  have hmap (ys : List α) : (below key k ys).length =
      ((ys.map key).takeWhile fun x => x < k).length := by
    rw [List.takeWhile_map, List.length_map]
    rfl
  rw [hmap, hmap, map_key_modify hf]

/-! ## Searching a table -/

theorem mem_of_find_eq_some {x : α} (h : find key k xs = some x) :
    x ∈ xs ∧ key x = k := by
  induction xs with
  | nil => simp [find] at h
  | cons y ys ih =>
      simp only [find] at h
      split at h
      · next hkey =>
          obtain rfl : y = x := Option.some.inj h
          exact ⟨List.mem_cons_self, hkey⟩
      · split at h
        · simp at h
        · exact ⟨List.mem_cons_of_mem _ (ih h).1, (ih h).2⟩

/-- In a sorted table the search finds the entry with the key. -/
theorem Sorted.find_eq_some_iff (hs : Sorted key xs) {x : α} :
    find key k xs = some x ↔ x ∈ xs ∧ key x = k := by
  refine ⟨mem_of_find_eq_some, ?_⟩
  rintro ⟨hx, rfl⟩
  induction xs with
  | nil => simp at hx
  | cons y ys ih =>
      have hys : Sorted key ys := List.Pairwise.of_cons hs
      rcases List.mem_cons.mp hx with rfl | hx
      · simp [find]
      · have hlt : key y < key x := List.rel_of_pairwise_cons hs hx
        simp [find, hlt.ne, hlt.not_gt, ih hys hx]

/-- A search for the key at which the scan stops finds the entry there. -/
theorem find_of_above {x : α} {rest : List α} (h : above key k xs = x :: rest) (hkey : key x = k) :
    find key k xs = some x := by
  induction xs with
  | nil => simp [above] at h
  | cons y ys ih =>
      by_cases hy : key y < k
      · simp only [above, List.dropWhile_cons, hy, decide_true, if_true] at h
        rw [find, if_neg hy.ne, if_neg hy.not_gt]
        exact ih h
      · simp only [above, List.dropWhile_cons, hy, decide_false] at h
        obtain ⟨rfl, -⟩ := List.cons_eq_cons.mp h
        rw [find, if_pos hkey]

/-- A key the scan does not meet is not found. -/
theorem find_eq_none (hnew : ∀ x rest, above key k xs = x :: rest → key x ≠ k) :
    find key k xs = none := by
  induction xs with
  | nil => rfl
  | cons y ys ih =>
      by_cases hy : key y < k
      · rw [find, if_neg hy.ne, if_neg hy.not_gt]
        apply ih
        intro x rest hx
        exact hnew x rest (by simpa [above, hy] using hx)
      · have hne : key y ≠ k := hnew y ys (by simp [above, hy])
        rw [find, if_neg hne, if_pos (lt_of_le_of_ne (not_lt.mp hy) hne.symm)]

/-- After an insertion of a key the scan does not meet, a search finds the new entry or what
it found before. -/
theorem find_insert {d : α}
    (hnew : ∀ x rest, above key (key d) xs = x :: rest → key x ≠ key d) (k : κ) :
    find key k (insert key d xs) = if key d = k then some d else find key k xs := by
  induction xs with
  | nil =>
      by_cases hk : key d = k
      · simp [insert, below, above, find, hk]
      · simp [insert, below, above, find, hk]
  | cons y ys ih =>
      by_cases hy : key y < key d
      · have hinsert : insert key d (y :: ys) = y :: insert key d ys := by
          simp [insert, below, above, hy]
        have habove : above key (key d) (y :: ys) = above key (key d) ys := by
          simp [above, hy]
        rw [habove] at hnew
        rw [hinsert, find, find, ih hnew]
        by_cases hk : key d = k
        · subst hk
          simp [hy.ne, hy.not_gt]
        · simp [hk]
      · have hinsert : insert key d (y :: ys) = d :: y :: ys := by
          simp [insert, below, above, hy]
        have hlt : key d < key y :=
          lt_of_le_of_ne (not_lt.mp hy) (hnew y ys (by simp [above, hy])).symm
        rw [hinsert, find]
        by_cases hk : key d = k
        · simp [hk]
        · rw [if_neg hk, if_neg hk]
          split
          · next hlow =>
              rw [find, if_neg (hlow.trans hlt).ne', if_pos (hlow.trans hlt)]
          · rfl

/-- In a sorted table the entries with a key weigh what the search finds. -/
theorem Sorted.total_key (hs : Sorted key xs) (weight : α → ℕ) :
    total (fun x => if key x = k then weight x else 0) xs =
      ((find key k xs).map weight).getD 0 := by
  induction xs with
  | nil => rfl
  | cons y ys ih =>
      have hgt : ∀ x ∈ ys, key y < key x := fun x hx => List.rel_of_pairwise_cons hs hx
      have hrest (hle : k ≤ key y) : total (fun x => if key x = k then weight x else 0) ys = 0 := by
        apply List.sum_eq_zero
        intro n hn
        obtain ⟨x, hx, rfl⟩ := List.mem_map.mp hn
        exact if_neg (hle.trans_lt (hgt x hx)).ne'
      rw [total_cons, find]
      by_cases hkey : key y = k
      · simp [hkey, hrest hkey.ge]
      · by_cases hlt : k < key y
        · simp [hkey, hlt, hrest hlt.le]
        · simp [hkey, hlt, ih (List.Pairwise.of_cons hs)]

end SortedTable
