import Mathlib.Tactic.Common
import StnChain.Support.Buffer

/-!
# Building a list in the buffer that holds another

A loop whose rounds change a state or refuse their entry, with the state it has reached
when it ends or is left (`run`).  A list written entry by entry from the front of a buffer
leaves the first `n` cells as they were exactly when it puts there what they held
(`take_overwrite_zero_eq_iff`).
-/

namespace InPlace

universe u

variable {ε α : Type*} {σ τ : Type u}

/-- The state a loop over some entries reaches, and how it ended. -/
def run (f : σ → α → Except ε σ) : List α → σ → σ × Except ε Unit
  | [], s => (s, .ok ())
  | a :: rest, s =>
      match f s a with
      | .error e => (s, .error e)
      | .ok s' => run f rest s'

variable {f : σ → α → Except ε σ} {s s' : σ} {xs past : List α} {a : α} {e : ε}

/-- A loop that is left is left at an entry refused in the state its past has reached. -/
theorem run_eq_error (h : run f xs s = (s', .error e)) :
    ∃ past a, past ++ [a] <+: xs ∧ past.foldlM f s = .ok s' ∧ f s' a = .error e := by
  induction xs generalizing s with
  | nil =>
      rw [run] at h
      cases (Prod.mk.inj h).2
  | cons a rest ih =>
      rw [run] at h
      split at h
      next e' hstep =>
        obtain ⟨rfl, herror⟩ := Prod.mk.inj h
        obtain rfl := Except.error.inj herror
        exact ⟨[], a, ⟨rest, rfl⟩, rfl, hstep⟩
      next s₁ hstep =>
        obtain ⟨past, b, hfront, hpast, hrefused⟩ := ih h
        refine ⟨a :: past, b, List.cons_prefix_cons.mpr ⟨rfl, hfront⟩, ?_, hrefused⟩
        rw [List.foldlM_cons, hstep]
        exact hpast

/-- At the first entry refused the loop is left. -/
theorem run_of_refused (hfront : past ++ [a] <+: xs) (hpast : past.foldlM f s = .ok s')
    (hrefused : f s' a = .error e) : run f xs s = (s', .error e) := by
  induction past generalizing s xs with
  | nil =>
      obtain ⟨rest, rfl⟩ := hfront
      obtain rfl := Except.ok.inj hpast
      simp only [List.nil_append, List.singleton_append, run, hrefused]
  | cons b past ih =>
      obtain ⟨rest, rfl⟩ := hfront
      rw [List.foldlM_cons] at hpast
      cases hstep : f s b with
      | error e' =>
          rw [hstep] at hpast
          cases hpast
      | ok s₁ =>
          rw [hstep] at hpast
          simp only [List.cons_append, run, hstep]
          exact ih ⟨rest, rfl⟩ hpast

/-- A loop over images of states runs as the loop over the states. -/
theorem run_map {g : τ → α → Except ε τ} {φ : σ → τ} {I : σ → Prop}
    (hmap : ∀ s a, I s → g (φ s) a = (f s a).map φ)
    (hkeep : ∀ s a s', I s → f s a = .ok s' → I s') (hs : I s) (xs : List α) :
    run g xs (φ s) = (φ (run f xs s).1, (run f xs s).2) := by
  induction xs generalizing s with
  | nil => rfl
  | cons a rest ih =>
      rw [run, run, hmap s a hs]
      cases hstep : f s a with
      | error e => rfl
      | ok s' => exact ih (hkeep s a s' hs hstep)

/-! ## Cells written from the front -/

section Cells

variable {β : Type} {buffer ys : List β}

theorem overwrite_zero (buffer ys : List β) :
    Buffer.overwrite buffer 0 ys = ys ++ buffer.drop ys.length := by
  simp [Buffer.overwrite]

theorem set_overwrite_zero (h : ys.length < buffer.length) (y : β) :
    (Buffer.overwrite buffer 0 ys).set ys.length y = Buffer.overwrite buffer 0 (ys ++ [y]) := by
  rw [overwrite_zero, overwrite_zero, List.set_append_right _ _ (Nat.le_refl _), Nat.sub_self,
    List.drop_eq_getElem_cons h, List.set_cons_zero, List.length_append, List.length_singleton,
    List.append_assoc, List.singleton_append]

/-- The first `n` cells keep what they held when that is what was written over them. -/
theorem take_overwrite_zero_eq_iff (n : ℕ) (h : ys.length ≤ buffer.length) :
    (Buffer.overwrite buffer 0 ys).take n = buffer.take n ↔ ys.take n <+: buffer := by
  rw [overwrite_zero]
  constructor
  · intro heq
    rw [List.take_append] at heq
    have hys : ys.take n <+: buffer.take n := ⟨_, heq⟩
    exact hys.trans (List.take_prefix n buffer)
  · intro hfront
    by_cases hn : n ≤ ys.length
    · rw [List.take_append_of_le_length hn, List.prefix_iff_eq_take.mp hfront, List.length_take,
        Nat.min_eq_left hn]
    · rw [List.take_of_length_le (by omega)] at hfront
      obtain ⟨rest, rfl⟩ := hfront
      rw [List.drop_left]

end Cells

end InPlace
