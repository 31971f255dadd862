import Mathlib.Data.List.Basic

/-!
# Lists of singles and pairs

A list is put together from single elements and from pairs, the second element of a pair
right behind the first.  An element that stands alone nowhere then has its partner beside
it.
-/

namespace StnChain
namespace Pairing

variable {α : Type*} {single : α → Prop} {bound : α → α → Prop}

/-- A list of singles and of bound pairs. -/
inductive Paired (single : α → Prop) (bound : α → α → Prop) : List α → Prop
  | nil : Paired single bound []
  | single {x : α} {xs : List α} (hx : single x) (hxs : Paired single bound xs) :
      Paired single bound (x :: xs)
  | pair {x y : α} {xs : List α} (hxy : bound x y) (hxs : Paired single bound xs) :
      Paired single bound (x :: y :: xs)

theorem Paired.of_forall {xs : List α} (h : ∀ x ∈ xs, single x) : Paired single bound xs := by
  induction xs with
  | nil => exact .nil
  | cons x xs ih =>
      apply Paired.single
      · exact h x List.mem_cons_self
      · exact ih fun y hy => h y (List.mem_cons_of_mem x hy)

theorem Paired.append {xs ys : List α} (h : Paired single bound xs)
    (h' : Paired single bound ys) : Paired single bound (xs ++ ys) := by
  induction h with
  | nil => exact h'
  | single hx _ ih => exact .single hx ih
  | pair hxy _ ih => exact .pair hxy ih

/-- A pair is added at the end. -/
theorem Paired.snoc {xs : List α} (h : Paired single bound xs) {x y : α} (hxy : bound x y) :
    Paired single bound (xs ++ [x, y]) :=
  h.append (.pair hxy .nil)

variable {xs : List α} {x : α} {k : ℕ}

/-- Behind the first element of a pair is one bound to it. -/
theorem Paired.next (h : Paired single bound xs) (hx : xs[k]? = some x) (hsingle : ¬single x)
    (hsecond : ∀ y, ¬bound y x) : ∃ y, xs[k + 1]? = some y ∧ bound x y := by
  induction h generalizing k with
  | nil => cases hx
  | single hy _ ih =>
      cases k with
      | zero =>
          obtain rfl := Option.some.inj hx
          exact absurd hy hsingle
      | succ k => exact ih hx
  | @pair y z _ hyz _ ih =>
      match k with
      | 0 =>
          obtain rfl := Option.some.inj hx
          exact ⟨z, rfl, hyz⟩
      | 1 =>
          obtain rfl := Option.some.inj hx
          exact absurd hyz (hsecond y)
      | k + 2 => exact ih hx

/-- In front of the second element of a pair is one it is bound to. -/
theorem Paired.prev (h : Paired single bound xs) (hx : xs[k]? = some x) (hsingle : ¬single x)
    (hfirst : ∀ y, ¬bound x y) : ∃ j y, k = j + 1 ∧ xs[j]? = some y ∧ bound y x := by
  induction h generalizing k with
  | nil => cases hx
  | single hy _ ih =>
      cases k with
      | zero =>
          obtain rfl := Option.some.inj hx
          exact absurd hy hsingle
      | succ k =>
          obtain ⟨j, y, rfl, hj, hbound⟩ := ih hx
          exact ⟨j + 1, y, rfl, hj, hbound⟩
  | @pair y z _ hyz _ ih =>
      match k with
      | 0 =>
          obtain rfl := Option.some.inj hx
          exact absurd hyz (hfirst z)
      | 1 =>
          obtain rfl := Option.some.inj hx
          exact ⟨0, y, rfl, rfl, hyz⟩
      | k + 2 =>
          obtain ⟨j, w, rfl, hj, hbound⟩ := ih hx
          exact ⟨j + 2, w, rfl, hj, hbound⟩

end Pairing
end StnChain
