import Mathlib.Data.Finset.Card
import StnChain.Support.SortedTable

/-!
# A set with room for a bounded number of elements

The set is listed in the order of an injective key and only grows.  A batch of elements is
admitted as a whole or, when the set has no room for it, not at all.  While everything that
is offered fits, the set is the union of what it was offered, whatever the order,
`mem_foldl_offer` and `foldl_offer_perm`.
-/

namespace BoundedSet

variable {α κ : Type*} [DecidableEq α] [LinearOrder κ] {key : α → κ} {limit : ℕ}

/-- An element is added unless it is there; `none` when there is no room. -/
def add (key : α → κ) (limit : ℕ) (set : List α) (x : α) : Option (List α) :=
  if x ∈ set then some set
  else if set.length = limit then none
  else some (SortedTable.insert key x set)

/-- Elements are added one after the other. -/
def addAll (key : α → κ) (limit : ℕ) : List α → List α → Option (List α)
  | set, [] => some set
  | set, x :: rest =>
      match add key limit set x with
      | none => none
      | some set => addAll key limit set rest

/-- A batch is added as a whole or not at all. -/
def offer (key : α → κ) (limit : ℕ) (set batch : List α) : List α :=
  (addAll key limit set batch).getD set

/-- The elements are in order and within the limit. -/
structure Kept (key : α → κ) (limit : ℕ) (set : List α) : Prop where
  sorted : SortedTable.Sorted key set
  within : set.length ≤ limit

omit [DecidableEq α] in
theorem Kept.nil : Kept key limit ([] : List α) where
  sorted := List.Pairwise.nil
  within := Nat.zero_le limit

omit [DecidableEq α] in
theorem Kept.nodup {set : List α} (h : Kept key limit set) : set.Nodup :=
  h.sorted.nodup_map.of_map key

theorem Kept.card {set : List α} (h : Kept key limit set) : set.toFinset.card = set.length :=
  List.toFinset_card_of_nodup h.nodup

omit [DecidableEq α] in
/-- There is one such list of given elements. -/
theorem Kept.eq_of_mem_iff {set set' : List α} (h : Kept key limit set)
    (h' : Kept key limit set') (hmem : ∀ x, x ∈ set ↔ x ∈ set') : set = set' := by
  have hperm : set.Perm set' := (List.perm_ext_iff_of_nodup h.nodup h'.nodup).mpr hmem
  refine hperm.eq_of_pairwise ?_ h.sorted h'.sorted
  intro a b _ _ hab hba
  exact absurd hab (not_lt.mpr hba.le)

/-! ## One batch -/

section Batch

variable (hkey : Function.Injective key) {set : List α} (h : Kept key limit set)
include hkey h

omit [DecidableEq α] in
theorem Kept.insert {x : α} (hnew : x ∉ set) (hroom : set.length ≠ limit) :
    Kept key limit (SortedTable.insert key x set) where
  sorted := by
    refine h.sorted.insert fun y rest hrest hsame => hnew ?_
    have hsplit : SortedTable.below key (key x) set ++ SortedTable.above key (key x) set = set :=
      SortedTable.below_append_above
    have hy : y ∈ set := by
      rw [← hsplit, hrest]
      exact List.mem_append_right _ List.mem_cons_self
    rwa [hkey hsame] at hy
  within := by
    rw [SortedTable.length_insert]
    exact Nat.lt_of_le_of_ne h.within hroom

/-- Either the elements are added, or there are too many of them. -/
theorem addAll_cases (items : List α) :
    (∃ set', addAll key limit set items = some set' ∧ Kept key limit set' ∧
      ∀ x, x ∈ set' ↔ x ∈ set ++ items) ∨
    (addAll key limit set items = none ∧ limit < (set ++ items).toFinset.card) := by
  induction items generalizing set with
  | nil =>
      refine Or.inl ⟨set, rfl, h, fun x => ?_⟩
      rw [List.append_nil]
  | cons y rest ih =>
      simp only [addAll, add]
      by_cases hy : y ∈ set
      · have hsame : ∀ x, x ∈ set ++ rest ↔ x ∈ set ++ y :: rest := by
          intro x
          simp only [List.mem_append, List.mem_cons]
          constructor
          · exact Or.imp_right Or.inr
          · rintro (hx | rfl | hx)
            exacts [Or.inl hx, Or.inl hy, Or.inr hx]
        have hset : (set ++ rest).toFinset = (set ++ y :: rest).toFinset :=
          List.toFinset.ext hsame
        simpa only [if_pos hy, hset, hsame] using ih h
      · rw [if_neg hy]
        by_cases hfull : set.length = limit
        · refine Or.inr ⟨by rw [if_pos hfull], ?_⟩
          have hsub : insert y set.toFinset ⊆ (set ++ y :: rest).toFinset := by
            intro x hx
            rcases Finset.mem_insert.mp hx with rfl | hx
            · simp
            · rw [List.toFinset_append]
              exact Finset.mem_union_left _ hx
          have hcard := Finset.card_le_card hsub
          rw [Finset.card_insert_of_notMem (by rwa [List.mem_toFinset]), h.card, hfull] at hcard
          exact hcard
        · have hkept := Kept.insert hkey h hy hfull
          have hsame : ∀ x, x ∈ SortedTable.insert key y set ++ rest ↔ x ∈ set ++ y :: rest := by
            intro x
            simp only [List.mem_append, List.mem_cons, SortedTable.mem_insert]
            tauto
          have hset : (SortedTable.insert key y set ++ rest).toFinset =
              (set ++ y :: rest).toFinset := List.toFinset.ext hsame
          simpa only [if_neg hfull, hset, hsame] using ih hkept

/-- A batch is added exactly when the union fits. -/
theorem addAll_isSome_iff (items : List α) :
    (addAll key limit set items).isSome ↔ (set ++ items).toFinset.card ≤ limit := by
  rcases addAll_cases hkey h items with ⟨set', hadd, hkept, hmem⟩ | ⟨hnone, hcard⟩
  · rw [hadd, ← List.toFinset.ext hmem, hkept.card]
    exact iff_of_true rfl hkept.within
  · rw [hnone]
    exact iff_of_false Bool.false_ne_true (not_le.mpr hcard)

/-- What a batch that is added makes of the set. -/
theorem addAll_eq_some {items set' : List α} (hadd : addAll key limit set items = some set') :
    Kept key limit set' ∧ ∀ x, x ∈ set' ↔ x ∈ set ++ items := by
  rcases addAll_cases hkey h items with ⟨set'', hadd', hresult⟩ | ⟨hnone, -⟩
  · obtain rfl := Option.some.inj (hadd.symm.trans hadd')
    exact hresult
  · exact absurd (hadd.symm.trans hnone) (Option.some_ne_none _)

/-- What is added depends on the elements only. -/
theorem addAll_congr {items items' : List α} (hmem : ∀ x, x ∈ items ↔ x ∈ items') :
    addAll key limit set items = addAll key limit set items' := by
  have hsame : ∀ x, x ∈ set ++ items ↔ x ∈ set ++ items' := by
    intro x
    rw [List.mem_append, List.mem_append, hmem]
  have hfits := addAll_isSome_iff hkey h items
  rw [List.toFinset.ext hsame, ← addAll_isSome_iff hkey h items'] at hfits
  cases hadd : addAll key limit set items with
  | none =>
      rw [hadd] at hfits
      exact (Option.not_isSome_iff_eq_none.mp fun h' => Bool.false_ne_true (hfits.mpr h')).symm
  | some added =>
      rw [hadd] at hfits
      obtain ⟨added', hadd'⟩ := Option.isSome_iff_exists.mp (hfits.mp rfl)
      obtain ⟨hkept, hin⟩ := addAll_eq_some hkey h hadd
      obtain ⟨hkept', hin'⟩ := addAll_eq_some hkey h hadd'
      rw [hadd', hkept.eq_of_mem_iff hkept' fun x => by rw [hin, hin', hsame]]

theorem Kept.offer (batch : List α) : Kept key limit (offer key limit set batch) := by
  rw [BoundedSet.offer]
  cases hadd : addAll key limit set batch with
  | none => exact h
  | some set' => exact (addAll_eq_some hkey h hadd).1

/-- The set keeps its elements and gets none that it was not offered. -/
theorem mem_offer {batch : List α} {x : α} :
    (x ∈ set → x ∈ BoundedSet.offer key limit set batch) ∧
    (x ∈ BoundedSet.offer key limit set batch → x ∈ set ++ batch) := by
  rw [BoundedSet.offer]
  cases hadd : addAll key limit set batch with
  | none => exact ⟨id, List.mem_append_left _⟩
  | some set' =>
      have hmem := (addAll_eq_some hkey h hadd).2 x
      exact ⟨fun hx => hmem.mpr (List.mem_append_left _ hx), hmem.mp⟩

theorem mem_offer_of_fits {batch : List α} (hfits : (set ++ batch).toFinset.card ≤ limit)
    (x : α) : x ∈ BoundedSet.offer key limit set batch ↔ x ∈ set ++ batch := by
  obtain ⟨set', hadd⟩ := Option.isSome_iff_exists.mp ((addAll_isSome_iff hkey h batch).mpr hfits)
  rw [BoundedSet.offer, hadd]
  exact (addAll_eq_some hkey h hadd).2 x

end Batch

/-! ## Any number of batches -/

section Batches

variable (hkey : Function.Injective key) {set : List α} (h : Kept key limit set)
include hkey h

theorem Kept.foldl_offer (batches : List (List α)) :
    Kept key limit (batches.foldl (BoundedSet.offer key limit) set) := by
  induction batches generalizing set with
  | nil => exact h
  | cons batch rest ih => exact ih (h.offer hkey batch)

theorem mem_of_mem_foldl_offer {batches : List (List α)} {x : α}
    (hx : x ∈ batches.foldl (BoundedSet.offer key limit) set) : x ∈ set ++ batches.flatten := by
  induction batches generalizing set with
  | nil => exact List.mem_append_left _ hx
  | cons batch rest ih =>
      rcases List.mem_append.mp (ih (h.offer hkey batch) hx) with hx | hx
      · have hmem := (mem_offer hkey h).2 hx
        rw [List.flatten_cons, ← List.append_assoc]
        exact List.mem_append_left _ hmem
      · rw [List.flatten_cons]
        exact List.mem_append_right _ (List.mem_append_right _ hx)

/-- While all that is offered fits, the set is the union of it. -/
theorem mem_foldl_offer {batches : List (List α)}
    (hfits : (set ++ batches.flatten).toFinset.card ≤ limit) (x : α) :
    x ∈ batches.foldl (BoundedSet.offer key limit) set ↔ x ∈ set ++ batches.flatten := by
  induction batches generalizing set with
  | nil => rw [List.flatten_nil, List.append_nil, List.foldl_nil]
  | cons batch rest ih =>
      rw [List.flatten_cons, ← List.append_assoc] at hfits ⊢
      have hbatch : (set ++ batch).toFinset.card ≤ limit := by
        refine le_trans (Finset.card_le_card ?_) hfits
        rw [List.toFinset_append (l := set ++ batch)]
        exact Finset.subset_union_left
      have hsame : ∀ x, x ∈ BoundedSet.offer key limit set batch ++ rest.flatten ↔
          x ∈ set ++ batch ++ rest.flatten := by
        intro x
        rw [List.mem_append, mem_offer_of_fits hkey h hbatch, ← List.mem_append]
      have hset := List.toFinset.ext hsame
      rw [List.foldl_cons, ← hsame]
      exact ih (h.offer hkey batch) (hset ▸ hfits)

/-- Then the order in which it is offered does not matter. -/
theorem foldl_offer_perm {batches batches' : List (List α)} (hperm : batches'.Perm batches)
    (hfits : (set ++ batches.flatten).toFinset.card ≤ limit) :
    batches'.foldl (BoundedSet.offer key limit) set =
      batches.foldl (BoundedSet.offer key limit) set := by
  have hsame : ∀ x, x ∈ set ++ batches'.flatten ↔ x ∈ set ++ batches.flatten := by
    intro x
    rw [List.mem_append, List.mem_append, hperm.flatten.mem_iff]
  have hfits' : (set ++ batches'.flatten).toFinset.card ≤ limit := by
    rwa [List.toFinset.ext hsame]
  apply Kept.eq_of_mem_iff (h.foldl_offer hkey batches') (h.foldl_offer hkey batches)
  intro x
  rw [mem_foldl_offer hkey h hfits', mem_foldl_offer hkey h hfits]
  exact hsame x

end Batches

end BoundedSet
