import Mathlib.Tactic.Common

/-!
# Loops that can be left early

A loop over a list whose rounds produce the next state or leave the loop with an
exit value is `List.foldlM` in `Except`.  `Ends exit ok x` says what is known about
such a computation: `exit` of its exit value or `ok` of its state.  The rules are
sequencing, `Ends.bind`, and the invariant rule of a loop, `Ends.foldlM`.
-/

namespace EarlyExit

universe u

variable {ε α : Type*} {σ τ : Type u}

/-- The exit value satisfies `exit`, or the state satisfies `ok`. -/
def Ends (exit : ε → Prop) (ok : σ → Prop) : Except ε σ → Prop
  | .error e => exit e
  | .ok s => ok s

variable {exit : ε → Prop}

theorem Ends.bind {P : σ → Prop} {Q : τ → Prop} {x : Except ε σ} {f : σ → Except ε τ}
    (hx : Ends exit P x)
    (hf : ∀ s, P s → Ends exit Q (f s)) : Ends exit Q (x >>= f) := by
  cases x with
  | error e => exact hx
  | ok s => exact hf s hx

theorem Ends.mono {P Q : σ → Prop} {x : Except ε σ} (hx : Ends exit P x)
    (h : ∀ s, P s → Q s) : Ends exit Q x := by
  cases x with
  | error e => exact hx
  | ok s => exact h s hx

/-- The invariant rule of a loop over `xs`; the invariant sees the entries passed. -/
theorem Ends.foldlM {xs : List α} {f : σ → α → Except ε σ} {I : List α → σ → Prop} {s : σ}
    (hinit : I [] s)
    (hstep : ∀ past a rest s, xs = past ++ a :: rest → I past s →
      Ends exit (I (past ++ [a])) (f s a)) :
    Ends exit (I xs) (xs.foldlM f s) := by
  have hrest : ∀ (rest past : List α) (s : σ), xs = past ++ rest → I past s →
      Ends exit (I xs) (rest.foldlM f s) := by
    intro rest
    induction rest with
    | nil =>
        intro past s hxs hpast
        rw [List.append_nil] at hxs
        exact hxs ▸ hpast
    | cons a rest ih =>
        intro past s hxs hpast
        rw [List.foldlM_cons]
        refine Ends.bind (hstep past a rest s hxs hpast) fun s' hs' => ?_
        exact ih (past ++ [a]) s' (by simp [hxs]) hs'
  exact hrest xs [] s rfl hinit

/-- A loop that is left with some exit or ends without a state is left. -/
theorem Ends.exists_exit {x : Except ε σ} (h : Ends exit (fun _ => False) x) :
    ∃ e, x = .error e ∧ exit e := by
  cases x with
  | error e => exact ⟨e, rfl, h⟩
  | ok s => exact h.elim

end EarlyExit
