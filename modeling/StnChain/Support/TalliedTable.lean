import Mathlib.Algebra.Order.Group.Nat
import StnChain.Support.SortedTable

/-!
# Sorted tables with a running tally

A table keeps its rows sorted by key and, beside them, a machine word that counts
their sizes.  Room for a row is judged by the counter alone and the counter is changed
by each operation on its own, so a table is right only while the counter is the total of
the sizes.  `Layout.Sound` says so, and every operation keeps it.
-/

namespace TalliedTable

open SortedTable

/-- What a table is sorted by, what its counter counts, its limits and the number of
values of its counter. -/
structure Layout (α κ : Type*) where
  key : α → κ
  size : α → ℕ
  maxRows : ℕ
  maxTally : ℕ
  modulus : ℕ
  representable : maxTally < modulus

/-- The rows of a table and its counter. -/
structure Table (α : Type*) where
  rows : List α
  tally : ℕ

/-- Subtraction of counters. -/
def counterSub (modulus a b : ℕ) : ℕ :=
  (a + modulus - b) % modulus

theorem counterSub_of_le {modulus a b : ℕ} (ha : a < modulus) (hb : b ≤ a) :
    counterSub modulus a b = a - b := by
  have hshift : a + modulus - b = a - b + modulus := by
    omega
  rw [counterSub, hshift, Nat.add_mod_right]
  exact Nat.mod_eq_of_lt (by omega)

/-- How placing a row ends. -/
inductive Placement
  | placed | present | full
  deriving DecidableEq

variable {α κ : Type*} [LinearOrder κ] (l : Layout α κ)

/-! ## Operations -/

/-- The scan for a key stops at a row that has it. -/
def Layout.present (k : κ) (t : Table α) : Bool :=
  (above l.key k t.rows).head?.any fun x => l.key x = k

/-- Put a row into the table unless its key is there or there is no room. -/
def Layout.place (x : α) (t : Table α) : Placement × Table α :=
  if l.present (l.key x) t then (.present, t)
  else if t.rows.length ≥ l.maxRows ∨ l.size x > counterSub l.modulus l.maxTally t.tally then
    (.full, t)
  else (.placed, ⟨insert l.key x t.rows, (t.tally + l.size x) % l.modulus⟩)

/-- Take out the row with a key; `none` when there is none. -/
def Layout.drop (k : κ) (t : Table α) : Option (Table α) :=
  match above l.key k t.rows with
  | [] => none
  | x :: rest =>
      if l.key x = k then
        some ⟨below l.key k t.rows ++ rest, counterSub l.modulus t.tally (l.size x)⟩
      else none

/-- The loop of `compact` over the rows: those the mask does not mark, and the counter. -/
def Layout.sweep : List α → List Bool → ℕ → List α × ℕ
  | x :: rows, marked :: mask, tally =>
      if marked then sweep rows mask (counterSub l.modulus tally (l.size x))
      else (x :: (sweep rows mask tally).1, (sweep rows mask tally).2)
  | rows, _, tally => (rows, tally)

/-- Take out the rows a mask marks. -/
def Layout.compact (t : Table α) (mask : List Bool) : Table α :=
  ⟨(l.sweep t.rows mask t.tally).1, (l.sweep t.rows mask t.tally).2⟩

/-- The rows are sorted, the counter is their total size and both keep within the limits. -/
structure Layout.Sound (t : Table α) : Prop where
  sorted : Sorted l.key t.rows
  rows : t.rows.length ≤ l.maxRows
  tally : t.tally = total l.size t.rows
  bounded : t.tally ≤ l.maxTally

variable {l} {t t' : Table α}

/-! ## Placing a row -/

theorem Layout.not_present_iff {k : κ} :
    l.present k t = false ↔ ∀ x rest, above l.key k t.rows = x :: rest → l.key x ≠ k := by
  cases h : above l.key k t.rows with
  | nil => simp [Layout.present, h]
  | cons y rest =>
      simp only [Layout.present, h, List.head?_cons, Option.any_some, decide_eq_false_iff_not,
        List.cons.injEq]
      constructor
      · rintro hne x rest' ⟨rfl, -⟩
        exact hne
      · intro hne
        exact hne y rest ⟨rfl, rfl⟩

/-- Only a row that is placed changes the table. -/
theorem Layout.place_of_ne {x : α} (h : (l.place x t).1 ≠ .placed) : (l.place x t).2 = t := by
  unfold Layout.place at h ⊢
  split
  · rfl
  next hpresent =>
  split
  · rfl
  next hroom =>
  simp [hpresent, hroom] at h

/-- What placing a row finds and does. -/
theorem Layout.Sound.of_placed (hs : l.Sound t) {x : α} (h : (l.place x t).1 = .placed) :
    l.present (l.key x) t = false ∧ t.rows.length < l.maxRows ∧
      t.tally + l.size x ≤ l.maxTally ∧
      (l.place x t).2 = ⟨insert l.key x t.rows, t.tally + l.size x⟩ := by
  unfold Layout.place at h ⊢
  by_cases hpresent : l.present (l.key x) t = true
  · simp [hpresent] at h
  by_cases hfull : t.rows.length ≥ l.maxRows ∨
      l.size x > counterSub l.modulus l.maxTally t.tally
  · simp [hpresent, hfull] at h
  obtain ⟨hrows, hsize⟩ := not_or.mp hfull
  rw [counterSub_of_le l.representable hs.bounded] at hsize
  have hbounded := hs.bounded
  have hsum : t.tally + l.size x ≤ l.maxTally := by
    omega
  have hword : (t.tally + l.size x) % l.modulus = t.tally + l.size x :=
    Nat.mod_eq_of_lt (lt_of_le_of_lt hsum l.representable)
  refine ⟨by simpa using hpresent, by omega, hsum, ?_⟩
  rw [if_neg hpresent, if_neg hfull, hword]

theorem Layout.Sound.place (hs : l.Sound t) (x : α) : l.Sound (l.place x t).2 := by
  by_cases hplaced : (l.place x t).1 = .placed
  · obtain ⟨hnew, hrows, hsum, hplace⟩ := hs.of_placed hplaced
    rw [hplace]
    constructor
    · exact hs.sorted.insert (Layout.not_present_iff.mp hnew)
    · rw [length_insert]
      exact hrows
    · rw [total_insert, hs.tally]
    · exact hsum
  · rwa [Layout.place_of_ne hplaced]

theorem Layout.mem_place {x y : α} (h : y ∈ (l.place x t).2.rows) : y = x ∨ y ∈ t.rows := by
  unfold Layout.place at h
  split at h
  · exact .inr h
  split at h
  · exact .inr h
  · exact mem_insert.mp h

/-! ## Taking rows out -/

theorem Layout.drop_eq_some {k : κ} (h : l.drop k t = some t') :
    ∃ x rest, above l.key k t.rows = x :: rest ∧ l.key x = k ∧
      t' = ⟨below l.key k t.rows ++ rest, counterSub l.modulus t.tally (l.size x)⟩ := by
  unfold Layout.drop at h
  split at h
  · simp at h
  next x rest habove =>
  split at h
  · next hkey => exact ⟨x, rest, habove, hkey, (Option.some.inj h).symm⟩
  · simp at h

theorem Layout.drop_sublist {k : κ} (h : l.drop k t = some t') : t'.rows.Sublist t.rows := by
  obtain ⟨x, rest, habove, -, rfl⟩ := Layout.drop_eq_some h
  have hsplit : below l.key k t.rows ++ above l.key k t.rows = t.rows := below_append_above
  calc
    (below l.key k t.rows ++ rest).Sublist (below l.key k t.rows ++ x :: rest) :=
      (List.sublist_cons_self x rest).append_left _
    _ = t.rows := habove ▸ hsplit

theorem Layout.Sound.drop (hs : l.Sound t) {k : κ} (h : l.drop k t = some t') : l.Sound t' := by
  have hsub := Layout.drop_sublist h
  obtain ⟨x, rest, habove, -, rfl⟩ := Layout.drop_eq_some h
  have hsplit : below l.key k t.rows ++ above l.key k t.rows = t.rows := below_append_above
  have htotal := congrArg (total l.size) hsplit
  rw [habove, total_append, total_cons, ← hs.tally] at htotal
  have hbounded := hs.bounded
  have hword : counterSub l.modulus t.tally (l.size x) = t.tally - l.size x :=
    counterSub_of_le (lt_of_le_of_lt hs.bounded l.representable) (by omega)
  constructor
  · exact hs.sorted.sublist hsub
  · exact hsub.length_le.trans hs.rows
  · simp only [hword, total_append]
    omega
  · simp only [hword]
    omega

/-- Taking out the row that was just placed restores the table. -/
theorem Layout.Sound.drop_place (hs : l.Sound t) {x : α} (h : (l.place x t).1 = .placed) :
    l.drop (l.key x) (l.place x t).2 = some t := by
  obtain ⟨-, -, hsum, hplace⟩ := hs.of_placed h
  have hbefore : ∀ y ∈ below l.key (l.key x) t.rows, decide (l.key y < l.key x) = true :=
    fun y hy => decide_eq_true (lt_of_mem_below hy)
  have hbelow : below l.key (l.key x) (insert l.key x t.rows) =
      below l.key (l.key x) t.rows := by
    rw [SortedTable.insert, below, List.takeWhile_append_of_pos hbefore]
    simp
  have habove : above l.key (l.key x) (insert l.key x t.rows) =
      x :: above l.key (l.key x) t.rows := by
    rw [SortedTable.insert, above, List.dropWhile_append_of_pos hbefore]
    simp
  have hrepresentable := l.representable
  have hword : counterSub l.modulus (t.tally + l.size x) (l.size x) = t.tally := by
    rw [counterSub_of_le (by omega) (by omega)]
    omega
  rw [hplace]
  simp only [Layout.drop, habove, hbelow, hword, if_true, below_append_above]

omit [LinearOrder κ] in
theorem Layout.sweep_sublist (rows : List α) (mask : List Bool) (tally : ℕ) :
    (l.sweep rows mask tally).1.Sublist rows := by
  induction rows generalizing mask tally with
  | nil => simp [Layout.sweep]
  | cons x rows ih =>
      cases mask with
      | nil => simp [Layout.sweep]
      | cons marked mask =>
          simp only [Layout.sweep]
          split
          · exact (ih mask _).cons x
          · exact (ih mask _).cons_cons x

omit [LinearOrder κ] in
/-- A mask that marks the rows with a property leaves the others. -/
theorem Layout.sweep_map (rows : List α) (marked : α → Bool) (tally : ℕ) :
    (l.sweep rows (rows.map marked) tally).1 = rows.filter fun x => !marked x := by
  induction rows generalizing tally with
  | nil => rfl
  | cons x rows ih =>
      rw [List.map_cons, Layout.sweep]
      by_cases hx : marked x = true
      · rw [if_pos hx, ih]
        simp [hx]
      · rw [if_neg hx, ih]
        simp [hx]

omit [LinearOrder κ] in
/-- A counter that covers the rows and some more covers what a sweep leaves and as much
more. -/
theorem Layout.sweep_tally (rows : List α) (mask : List Bool) {tally : ℕ} (more : ℕ)
    (hword : tally < l.modulus) (h : tally = total l.size rows + more) :
    (l.sweep rows mask tally).2 = total l.size (l.sweep rows mask tally).1 + more := by
  induction rows generalizing mask tally more with
  | nil => simpa [Layout.sweep] using h
  | cons x rows ih =>
      rw [total_cons] at h
      cases mask with
      | nil => simpa [Layout.sweep, total_cons] using h
      | cons marked mask =>
          simp only [Layout.sweep]
          split
          · have hsub : counterSub l.modulus tally (l.size x) = tally - l.size x :=
              counterSub_of_le hword (by omega)
            apply ih mask
            · omega
            · omega
          · have hrest := ih mask (l.size x + more) hword (by omega)
            simp only [total_cons]
            omega

theorem Layout.Sound.compact (hs : l.Sound t) (mask : List Bool) : l.Sound (l.compact t mask) := by
  have hsub : (l.compact t mask).rows.Sublist t.rows := Layout.sweep_sublist _ _ _
  have hword : t.tally < l.modulus := lt_of_le_of_lt hs.bounded l.representable
  have htally : (l.compact t mask).tally = total l.size (l.compact t mask).rows :=
    Layout.sweep_tally t.rows mask 0 hword hs.tally
  have hle : total l.size (l.compact t mask).rows ≤ total l.size t.rows :=
    (hsub.map l.size).sum_le_sum fun _ _ => Nat.zero_le _
  constructor
  · exact hs.sorted.sublist hsub
  · exact hsub.length_le.trans hs.rows
  · exact htally
  · rw [htally]
    exact hle.trans (hs.tally ▸ hs.bounded)

end TalliedTable
