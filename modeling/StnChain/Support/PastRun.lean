import Mathlib.Data.List.Induction
import Mathlib.Tactic.Common

/-!
# Runs of a fallible step that sees its past

A journal is replayed one entry at a time.  The step receives the entries
already replayed, the current state and the next entry, and either fails or
produces a new state.  `run` is the replay of a whole list; `Reach` is the
same notion as a relation, which is the form the induction rules take.

The module is parameterized by the entry type, the state type and the error
type.  Its rule is the invariant rule `Reach.invariant`.
-/

namespace PastRun

variable {ε σ α : Type*}

/-- Replay `rest` from `s`, after the entries `past`. -/
def run (step : List α → σ → α → Except ε σ) :
    List α → σ → List α → Except ε σ
  | _, s, [] => .ok s
  | past, s, a :: rest =>
      match step past s a with
      | .error e => .error e
      | .ok s' => run step (past ++ [a]) s' rest

/-- `Reach step init xs s`: replaying `xs` from `init` succeeds with state `s`. -/
inductive Reach (step : List α → σ → α → Except ε σ) (init : σ) :
    List α → σ → Prop
  | nil : Reach step init [] init
  | snoc {past : List α} {s s' : σ} {a : α} :
      Reach step init past s → step past s a = .ok s' →
      Reach step init (past ++ [a]) s'

section Replay

variable {step : List α → σ → α → Except ε σ} {init : σ}

theorem reach_snoc_iff {xs : List α} {a : α} {s' : σ} :
    Reach step init (xs ++ [a]) s' ↔
      ∃ s, Reach step init xs s ∧ step xs s a = .ok s' := by
  constructor
  · intro h
    generalize hys : xs ++ [a] = ys at h
    cases h with
    | nil => simp at hys
    | snoc hreach hstep =>
        obtain ⟨rfl, hlast⟩ := List.append_inj' hys rfl
        obtain rfl : a = _ := by simpa using hlast
        exact ⟨_, hreach, hstep⟩
  · rintro ⟨s, hreach, hstep⟩
    exact hreach.snoc hstep

/-- A run over a list continues from the state its front reaches. -/
theorem run_of_reach {xs : List α} {s : σ}
    (h : Reach step init xs s) (ys : List α) :
    run step [] init (xs ++ ys) = run step xs s ys := by
  induction h generalizing ys with
  | nil => rfl
  | snoc _ hstep ih =>
      rw [List.append_assoc, ih]
      simp [run, hstep]

private theorem reach_of_run {ys xs : List α} {s t : σ}
    (h : Reach step init xs s) (hrun : run step xs s ys = .ok t) :
    Reach step init (xs ++ ys) t := by
  induction ys generalizing xs s with
  | nil =>
      simp only [run, Except.ok.injEq] at hrun
      simpa [hrun] using h
  | cons a ys ih =>
      simp only [run] at hrun
      split at hrun
      · simp at hrun
      · next s' hstep => simpa using ih (h.snoc hstep) hrun

/-- Replaying a list and reaching a state along it are the same thing. -/
theorem run_eq_ok_iff {xs : List α} {s : σ} :
    run step [] init xs = .ok s ↔ Reach step init xs s := by
  constructor
  · intro h
    simpa using reach_of_run (.nil : Reach step init [] init) h
  · intro h
    simpa [run] using run_of_reach h []

theorem Reach.unique {xs : List α} {s t : σ}
    (hs : Reach step init xs s) (ht : Reach step init xs t) : s = t := by
  have h := (run_eq_ok_iff.mpr hs).symm.trans (run_eq_ok_iff.mpr ht)
  exact Except.ok.inj h

/-- Every prefix of a replayed list is itself replayed. -/
theorem Reach.of_append {xs ys : List α} {t : σ}
    (h : Reach step init (xs ++ ys) t) : ∃ s, Reach step init xs s := by
  induction ys using List.reverseRecOn generalizing t with
  | nil => exact ⟨t, by simpa using h⟩
  | append_singleton ys a ih =>
      rw [← List.append_assoc] at h
      obtain ⟨s, hs, _⟩ := reach_snoc_iff.mp h
      exact ih hs

/-- The step a run took at any of its entries. -/
theorem Reach.step_at {xs ys : List α} {a : α} {t : σ}
    (h : Reach step init (xs ++ a :: ys) t) :
    ∃ s s', Reach step init xs s ∧ step xs s a = .ok s' ∧
      Reach step init (xs ++ [a]) s' := by
  have hsplit : xs ++ a :: ys = (xs ++ [a]) ++ ys := by simp
  rw [hsplit] at h
  obtain ⟨s', hs'⟩ := h.of_append
  obtain ⟨s, hs, hstep⟩ := reach_snoc_iff.mp hs'
  exact ⟨s, s', hs, hstep, hs'⟩

/-- A property of past and state that the empty run has and every step of a
run preserves holds of every state a run reaches. -/
theorem Reach.invariant {P : List α → σ → Prop} (hinit : P [] init)
    (hstep : ∀ past s a s', Reach step init past s → P past s →
      step past s a = .ok s' → P (past ++ [a]) s')
    {xs : List α} {s : σ} (h : Reach step init xs s) : P xs s := by
  induction h with
  | nil => exact hinit
  | snoc hreach hnext ih => exact hstep _ _ _ _ hreach ih hnext

end Replay

end PastRun
