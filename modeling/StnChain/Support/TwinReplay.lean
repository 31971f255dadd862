import Mathlib.Data.List.Infix
import Mathlib.Tactic.Common

/-!
# Two replays of one history

Two fallible steps replay the same list of entries from their own states.  They agree on a
list when the second accepts what the first accepts, with related states, and rejects what
the first rejects.  They agree on every prefix of a list exactly when they treat each entry
alike that they reach in related states, `agree_prefixes_iff`.
-/

namespace TwinReplay

variable {σ τ ε φ α : Type*} (f : σ → α → Except ε σ) (g : τ → α → Except φ τ)
  (R : σ → τ → Prop)

/-- An outcome of the first replay is matched by one of the second. -/
def Matched (x : Except ε σ) (y : Except φ τ) : Prop :=
  match x, y with
  | .ok s, .ok t => R s t
  | .error _, .error _ => True
  | _, _ => False

/-- The replays of a list from two states agree. -/
def Agree (s : σ) (t : τ) (xs : List α) : Prop :=
  Matched R (xs.foldlM f s) (xs.foldlM g t)

variable {f g R}

/-- Two outcomes match iff they are accepted under one condition and related then. -/
theorem matched_iff {x : Except ε σ} {y : Except φ τ} {P Q : Prop} {s : σ} {t : τ}
    (hx : ∀ s', x = .ok s' ↔ P ∧ s' = s) (hy : ∀ t', y = .ok t' ↔ Q ∧ t' = t) :
    Matched R x y ↔ (P ↔ Q) ∧ (P → R s t) := by
  by_cases hP : P
  · obtain rfl := (hx s).mpr ⟨hP, rfl⟩
    by_cases hQ : Q
    · obtain rfl := (hy t).mpr ⟨hQ, rfl⟩
      exact ⟨fun h => ⟨iff_of_true hP hQ, fun _ => h⟩, fun h => h.2 hP⟩
    · cases y with
      | error e => exact ⟨fun h => h.elim, fun h => hQ (h.1.mp hP)⟩
      | ok t' => exact absurd ((hy t').mp rfl).1 hQ
  · cases x with
    | ok s' => exact absurd ((hx s').mp rfl).1 hP
    | error e =>
        cases y with
        | error e' =>
            have hQ : ¬ Q := fun hQ => nomatch (hy t).mpr ⟨hQ, rfl⟩
            exact ⟨fun _ => ⟨iff_of_false hP hQ, fun h => absurd h hP⟩, fun _ => trivial⟩
        | ok t' =>
            have hQ := ((hy t').mp rfl).1
            exact ⟨fun h => h.elim, fun h => hP (h.1.mpr hQ)⟩

/-- Neither outcome is accepted. -/
theorem matched_of_none {x : Except ε σ} {y : Except φ τ} (hx : ∀ s, x ≠ .ok s)
    (hy : ∀ t, y ≠ .ok t) : Matched R x y := by
  cases x with
  | ok s => exact absurd rfl (hx s)
  | error e =>
      cases y with
      | ok t => exact absurd rfl (hy t)
      | error e' => trivial

theorem foldlM_snoc {s s' : σ} {xs : List α} {a : α} (h : xs.foldlM f s = .ok s') :
    (xs ++ [a]).foldlM f s = f s' a := by
  rw [List.foldlM_append, h]
  show List.foldlM f s' [a] = _
  rw [List.foldlM_cons]
  cases f s' a <;> rfl

theorem foldlM_cons_of_ok {s s' : σ} {xs : List α} {a : α} (h : f s a = .ok s') :
    (a :: xs).foldlM f s = xs.foldlM f s' := by
  rw [List.foldlM_cons, h]
  rfl

theorem foldlM_cons_of_error {s : σ} {xs : List α} {a : α} {e : ε} (h : f s a = .error e) :
    (a :: xs).foldlM f s = .error e := by
  rw [List.foldlM_cons, h]
  rfl

/-- What every accepted entry keeps, an accepted list keeps. -/
theorem foldlM_invariant {I : σ → Prop} {s s' : σ} {xs : List α}
    (hstep : ∀ s a s', I s → f s a = .ok s' → I s') (h : I s)
    (hrun : xs.foldlM f s = .ok s') : I s' := by
  induction xs generalizing s with
  | nil =>
      obtain rfl := Except.ok.inj hrun
      exact h
  | cons a xs ih =>
      cases ha : f s a with
      | error e =>
          rw [foldlM_cons_of_error ha] at hrun
          cases hrun
      | ok t =>
          rw [foldlM_cons_of_ok ha] at hrun
          exact ih (hstep s a t h ha) hrun

/-- Replays agree on every prefix of a list iff they treat every entry alike that the first
replay reaches while the states are related. -/
theorem agree_prefixes_iff {s : σ} {t : τ} {xs : List α} (hR : R s t) :
    (∀ p, p <+: xs → Agree f g R s t p) ↔
      ∀ p a q, xs = p ++ a :: q → ∀ s' t', p.foldlM f s = .ok s' → p.foldlM g t = .ok t' →
        R s' t' → Matched R (f s' a) (g t' a) := by
  constructor
  · rintro h p a q rfl s' t' hs ht -
    have hagree := h (p ++ [a]) ⟨q, by simp⟩
    rwa [Agree, foldlM_snoc hs, foldlM_snoc ht] at hagree
  · intro h p hp
    induction p generalizing xs s t with
    | nil => exact hR
    | cons a p ih =>
        obtain ⟨q, rfl⟩ := hp
        have hstep := h [] a (p ++ q) rfl s t rfl rfl hR
        cases hs : f s a with
        | error e =>
            rw [hs] at hstep
            cases ht : g t a with
            | error e' =>
                rw [Agree, foldlM_cons_of_error hs, foldlM_cons_of_error ht]
                trivial
            | ok t' =>
                rw [ht] at hstep
                exact hstep.elim
        | ok s' =>
            rw [hs] at hstep
            cases ht : g t a with
            | error e' =>
                rw [ht] at hstep
                exact hstep.elim
            | ok t' =>
                rw [ht] at hstep
                rw [Agree, foldlM_cons_of_ok hs, foldlM_cons_of_ok ht]
                refine ih hstep ?_ ⟨q, rfl⟩
                rintro p' b q' hsplit s'' t'' hs' ht' hR'
                apply h (a :: p') b q' (by rw [List.cons_append, hsplit]; rfl) s'' t'' _ _ hR'
                · rw [foldlM_cons_of_ok hs, hs']
                · rw [foldlM_cons_of_ok ht, ht']

end TwinReplay
