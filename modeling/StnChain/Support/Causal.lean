import Mathlib.Data.List.Sort
import Mathlib.Order.WellFounded

/-!
# Lists decided from below

A rule decides whether an element stands in a list from the elements of the list below
it.  A well-founded order leaves no choice: two ascending lists under rules that agree
below a bound agree below it, `Decided.filter_eq`.  What an ascending list has below a
bound is where it starts, `filter_eq_takeWhile`.
-/

namespace Causal

variable {α : Type*}

/-- The elements of a list below one. -/
def below (lt : α → α → Prop) [DecidableRel lt] (l : List α) (a : α) : List α :=
  l.filter fun x => decide (lt x a)

/-- An ascending list in which an element stands if the elements below it admit it. -/
structure Decided (lt : α → α → Prop) [DecidableRel lt] (admits : List α → α → Prop)
    (l : List α) : Prop where
  ascending : l.Pairwise lt
  mem_iff : ∀ a, a ∈ l ↔ admits (below lt l a) a

variable {lt : α → α → Prop} [DecidableRel lt]

theorem mem_below {l : List α} {a x : α} : x ∈ below lt l a ↔ x ∈ l ∧ lt x a := by
  rw [below, List.mem_filter, decide_eq_true_eq]

omit [DecidableRel lt] in
/-- Ascending lists with the same elements are equal. -/
theorem eq_of_ascending (hwf : WellFounded lt) {l l' : List α} (h : l.Pairwise lt)
    (h' : l'.Pairwise lt) (hmem : ∀ a, a ∈ l ↔ a ∈ l') : l = l' := by
  have hirrefl : Std.Irrefl lt := ⟨hwf.irrefl.irrefl⟩
  have hantisymm : Std.Antisymm lt := ⟨fun a b hab hba => absurd hba (hwf.asymmetric a b hab)⟩
  exact h.eq_of_mem_iff h' hmem

/-- Below a bound the list is where its rule puts it. -/
theorem Decided.filter_eq (hwf : WellFounded lt) {admits admits' : List α → α → Prop}
    {l l' : List α} (h : Decided lt admits l) (h' : Decided lt admits' l') {p : α → Bool}
    (hdown : ∀ a b, lt a b → p b = true → p a = true)
    (hagree : ∀ past a, p a = true → (admits past a ↔ admits' past a)) :
    l.filter p = l'.filter p := by
  have hmem : ∀ a, p a = true → (a ∈ l ↔ a ∈ l') := by
    intro a
    induction a using hwf.induction with
    | h a ih =>
        intro ha
        have hbelow : below lt l a = below lt l' a := by
          refine eq_of_ascending hwf (h.ascending.filter _) (h'.ascending.filter _) fun x => ?_
          rw [mem_below, mem_below]
          exact and_congr_left fun hlt => ih x hlt (hdown x a hlt ha)
        rw [h.mem_iff, h'.mem_iff, hbelow]
        exact hagree _ a ha
  apply eq_of_ascending hwf (h.ascending.filter p) (h'.ascending.filter p)
  intro a
  rw [List.mem_filter, List.mem_filter]
  exact and_congr_left (hmem a)

omit [DecidableRel lt] in
/-- What an ascending list has below a bound is where it starts. -/
theorem filter_eq_takeWhile {l : List α} (h : l.Pairwise lt) {p : α → Bool}
    (hdown : ∀ a b, lt a b → p b = true → p a = true) : l.filter p = l.takeWhile p := by
  induction l with
  | nil => rfl
  | cons a l ih =>
      obtain ⟨habove, hrest⟩ := List.pairwise_cons.mp h
      by_cases ha : p a = true
      · rw [List.filter_cons_of_pos ha, List.takeWhile_cons_of_pos ha, ih hrest]
      · rw [List.takeWhile_cons_of_neg ha, List.filter_eq_nil_iff]
        intro b hb hpb
        rcases List.mem_cons.mp hb with rfl | hb
        · exact ha hpb
        · exact ha (hdown a b (habove b hb) hpb)

end Causal
