import Mathlib.Data.List.Forall2

/-!
# Lists related entry by entry

`List.Forall₂ R xs ys` says that two lists have the same length and that their entries
are related place by place.  Looking an entry up, replacing one and searching for the
first that passes a test do the same on both lists.
-/

namespace Entrywise

variable {α β : Type*} {R : α → β → Prop} {xs : List α} {ys : List β}

theorem exists_of_mem (h : List.Forall₂ R xs ys) {y : β} (hy : y ∈ ys) : ∃ x, R x y := by
  induction h with
  | nil => cases hy
  | @cons x y' _ _ hxy _ ih =>
      rcases List.mem_cons.mp hy with rfl | hy
      · exact ⟨x, hxy⟩
      · exact ih hy

/-- A place is behind both lists or holds related entries. -/
theorem getElem?_cases (h : List.Forall₂ R xs ys) (i : ℕ) :
    (xs[i]? = none ∧ ys[i]? = none) ∨ ∃ x y, xs[i]? = some x ∧ ys[i]? = some y ∧ R x y := by
  induction h generalizing i with
  | nil => exact .inl ⟨rfl, rfl⟩
  | @cons x y xs ys hxy _ ih =>
      cases i with
      | zero => exact .inr ⟨x, y, rfl, rfl, hxy⟩
      | succ i => exact ih i

theorem set (h : List.Forall₂ R xs ys) (i : ℕ) {x : α} {y : β} (hxy : R x y) :
    List.Forall₂ R (xs.set i x) (ys.set i y) := by
  induction h generalizing i with
  | nil => exact .nil
  | cons hfirst hrest ih =>
      cases i with
      | zero => exact .cons hxy hrest
      | succ i => exact .cons hfirst (ih i)

/-- Tests that agree on related entries find the same place. -/
theorem findIdx?_eq {P : α → Bool} {Q : β → Bool} (h : List.Forall₂ R xs ys)
    (hPQ : ∀ x y, R x y → P x = Q y) : xs.findIdx? P = ys.findIdx? Q := by
  induction h with
  | nil => rfl
  | cons hxy _ ih => rw [List.findIdx?_cons, List.findIdx?_cons, hPQ _ _ hxy, ih]

/-- A function that returns every entry returns the list. -/
theorem mapM_eq_self {f : α → Option α} (h : ∀ x ∈ xs, f x = some x) : xs.mapM f = some xs := by
  induction xs with
  | nil => rfl
  | cons x xs ih =>
      rw [List.mapM_cons, h x List.mem_cons_self]
      have hrest := ih fun y hy => h y (List.mem_cons_of_mem x hy)
      simp only [hrest, Option.bind_eq_bind, Option.bind_some]
      rfl

end Entrywise
