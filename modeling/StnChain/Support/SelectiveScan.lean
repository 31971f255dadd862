import Mathlib.Data.List.Basic
import Mathlib.Tactic.Common

/-!
# Scans for a selected value

A scan walks over the entries of a list and sees a value at some of them.  It is left
with the first value it selects; an entry whose value it does not select is passed over,
which may fail.  `log` lists what a scan sees that passes over every entry.  A scan whose
passes do not fail finds the first value of the log it selects, `foldlM_select`; so two
scans of one list see the same values in the same order.
-/

namespace SelectiveScan

variable {σ ε ρ φ : Type*}

/-- What a scan sees that selects nothing. -/
def log (pass : σ → ε → Except φ σ) (seen : σ → ε → Option ρ) : σ → List ε → List ρ
  | _, [] => []
  | s, e :: es =>
      (seen s e).toList ++
        match pass s e with
        | .ok s' => log pass seen s' es
        | .error _ => []

/-- Leave the scan with a selected value, or go on. -/
def leaveOr (found : ρ → φ) (r : Option ρ) (next : Except φ σ) : Except φ σ :=
  match r with
  | some r => .error (found r)
  | none => next

variable {pass : σ → ε → Except φ σ} {seen : σ → ε → Option ρ} {es es' : List ε} {s s' : σ}

theorem log_cons {e : ε} (h : pass s e = .ok s') :
    log pass seen s (e :: es) = (seen s e).toList ++ log pass seen s' es := by
  simp only [log, h]

theorem foldlM_cons_eq_ok {e : ε} :
    (e :: es).foldlM pass s = .ok s' ↔ ∃ t, pass s e = .ok t ∧ es.foldlM pass t = .ok s' := by
  rw [List.foldlM_cons]
  cases pass s e with
  | error exit => exact ⟨fun h => (by cases h), fun ⟨_, h, _⟩ => (by cases h)⟩
  | ok t =>
      constructor
      · exact fun h => ⟨t, rfl, h⟩
      · rintro ⟨u, hu, h⟩
        obtain rfl := Except.ok.inj hu
        exact h

theorem foldlM_append_eq_ok :
    (es ++ es').foldlM pass s = .ok s' ↔
      ∃ t, es.foldlM pass s = .ok t ∧ es'.foldlM pass t = .ok s' := by
  induction es generalizing s with
  | nil =>
      constructor
      · exact fun h => ⟨s, rfl, h⟩
      · rintro ⟨u, hu, h⟩
        obtain rfl := Except.ok.inj hu
        exact h
  | cons e es ih =>
      rw [List.cons_append, foldlM_cons_eq_ok]
      constructor
      · rintro ⟨t, ht, hrest⟩
        obtain ⟨u, hu, hu'⟩ := ih.mp hrest
        exact ⟨u, foldlM_cons_eq_ok.mpr ⟨t, ht, hu⟩, hu'⟩
      · rintro ⟨u, hu, hu'⟩
        obtain ⟨t, ht, hrest⟩ := foldlM_cons_eq_ok.mp hu
        exact ⟨t, ht, ih.mpr ⟨u, hrest, hu'⟩⟩

theorem log_append (h : es.foldlM pass s = .ok s') :
    log pass seen s (es ++ es') = log pass seen s es ++ log pass seen s' es' := by
  induction es generalizing s with
  | nil =>
      obtain rfl := Except.ok.inj h
      rfl
  | cons e es ih =>
      obtain ⟨t, ht, hrest⟩ := foldlM_cons_eq_ok.mp h
      rw [List.cons_append, log_cons ht, log_cons ht, ih hrest, List.append_assoc]

theorem foldlM_congr {step : σ → ε → Except φ σ} (h : ∀ e ∈ es, ∀ s, step s e = pass s e) :
    es.foldlM step s = es.foldlM pass s := by
  induction es generalizing s with
  | nil => rfl
  | cons e es ih =>
      rw [List.foldlM_cons, List.foldlM_cons, h e List.mem_cons_self s]
      cases pass s e with
      | error exit => rfl
      | ok t => exact ih fun e' he' => h e' (List.mem_cons_of_mem e he')

/-- A scan over entries that can be passed finds the first value of the log it selects. -/
theorem foldlM_select {step : σ → ε → Except φ σ} (found : ρ → φ) {selects : ρ → Bool}
    (hstep : ∀ e ∈ es, ∀ s,
      step s e = leaveOr found ((seen s e).filter selects) (pass s e))
    (h : es.foldlM pass s = .ok s') :
    es.foldlM step s = leaveOr found ((log pass seen s es).find? selects) (.ok s') := by
  induction es generalizing s with
  | nil =>
      obtain rfl := Except.ok.inj h
      rfl
  | cons e es ih =>
      obtain ⟨t, ht, hrest⟩ := foldlM_cons_eq_ok.mp h
      have hhead := hstep e List.mem_cons_self s
      have htail := ih (fun e' he' => hstep e' (List.mem_cons_of_mem e he')) hrest
      rw [List.foldlM_cons, log_cons ht, hhead]
      cases seen s e with
      | none =>
          rw [Option.filter_none, ht]
          exact htail
      | some r =>
          by_cases hselects : selects r = true
          · simp [Option.filter, hselects, leaveOr, bind, Except.bind]
          · simp only [Option.filter, hselects, ht, Option.toList_some, List.cons_append,
              List.nil_append, List.find?_cons]
            exact htail

/-- A value of the log is seen at an entry, after the entries before it are passed. -/
theorem mem_log {r : ρ} (h : r ∈ log pass seen s es) :
    ∃ pre e post t, es = pre ++ e :: post ∧ pre.foldlM pass s = .ok t ∧ seen t e = some r := by
  induction es generalizing s with
  | nil => simp [log] at h
  | cons e es ih =>
      rcases List.mem_append.mp h with hhead | htail
      · exact ⟨[], e, es, s, rfl, rfl, Option.mem_toList.mp hhead⟩
      · cases hpass : pass s e with
        | error exit => simp [hpass] at htail
        | ok t =>
            rw [hpass] at htail
            obtain ⟨pre, e', post, u, rfl, hpre, hseen⟩ := ih htail
            exact ⟨e :: pre, e', post, u, rfl, foldlM_cons_eq_ok.mpr ⟨t, hpass, hpre⟩, hseen⟩

/-- A scan sees at most one value at an entry. -/
theorem length_log_le : (log pass seen s es).length ≤ es.length := by
  induction es generalizing s with
  | nil => exact Nat.le_refl _
  | cons e es ih =>
      have hone : (seen s e).toList.length ≤ 1 := Option.length_toList_le
      rw [log, List.length_append, List.length_cons, Nat.add_comm]
      refine Nat.add_le_add ?_ hone
      cases pass s e with
      | error exit => exact Nat.zero_le _
      | ok t => exact ih

/-- The log is in the order of the entries. -/
theorem log_pairwise {R : ε → ε → Prop} {S : ρ → ρ → Prop}
    (hS : ∀ e ∈ es, ∀ e' ∈ es, R e e' → ∀ s s' r r', seen s e = some r → seen s' e' = some r' →
      S r r')
    (h : es.Pairwise R) : (log pass seen s es).Pairwise S := by
  induction es generalizing s with
  | nil => exact .nil
  | cons e es ih =>
      obtain ⟨hhead, htail⟩ := List.pairwise_cons.mp h
      have hrest (t : σ) : (log pass seen t es).Pairwise S :=
        ih (fun a ha b hb => hS a (List.mem_cons_of_mem e ha) b (List.mem_cons_of_mem e hb)) htail
      have hfirst (t : σ) : ∀ r ∈ (seen s e).toList, ∀ r' ∈ log pass seen t es, S r r' := by
        intro r hr r' hr'
        obtain ⟨pre, e', post, u, rfl, -, hseen⟩ := mem_log hr'
        have he' : e' ∈ pre ++ e' :: post := by simp
        exact hS e List.mem_cons_self e' (List.mem_cons_of_mem e he') (hhead e' he') _ _ _ _
          (Option.mem_toList.mp hr) hseen
      have hone : (seen s e).toList.Pairwise S := by
        cases seen s e with
        | none => exact .nil
        | some r => exact List.pairwise_singleton S r
      cases hpass : pass s e with
      | error exit =>
          simp only [log, hpass, List.append_nil]
          exact hone
      | ok t =>
          rw [log_cons hpass]
          exact List.pairwise_append.mpr ⟨hone, hrest t, hfirst t⟩

/-- The invariant rule of a scan that passes over every entry, with its log and the number
of entries left. -/
theorem foldlM_log {I : ℕ → σ → List ρ → Prop} {n : ℕ} {past : List ρ}
    (hstep : ∀ e ∈ es, ∀ n s s' past, I (n + 1) s past → pass s e = .ok s' →
      I n s' (past ++ (seen s e).toList))
    (hinit : I (es.length + n) s past) (h : es.foldlM pass s = .ok s') :
    I n s' (past ++ log pass seen s es) := by
  induction es generalizing s past with
  | nil =>
      obtain rfl := Except.ok.inj h
      simpa [log] using hinit
  | cons e es ih =>
      obtain ⟨t, ht, hrest⟩ := foldlM_cons_eq_ok.mp h
      rw [log_cons ht, ← List.append_assoc]
      rw [List.length_cons, Nat.add_right_comm] at hinit
      exact ih (fun e' he' => hstep e' (List.mem_cons_of_mem e he'))
        (hstep e List.mem_cons_self _ _ _ _ hinit ht) hrest

/-- The first value after one of an ascending log is the one that follows it. -/
theorem find?_after (lt : ρ → ρ → Prop) [DecidableRel lt] {pre rest : List ρ} {r : ρ}
    (hirrefl : ¬ lt r r) (hasymm : ∀ x, lt x r → ¬ lt r x)
    (h : (pre ++ r :: rest).Pairwise lt) :
    (pre ++ r :: rest).find? (fun x => decide (lt r x)) = rest.head? := by
  obtain ⟨-, htail, hbefore⟩ := List.pairwise_append.mp h
  obtain ⟨hafter, -⟩ := List.pairwise_cons.mp htail
  have hpre : pre.find? (fun x => decide (lt r x)) = none := by
    rw [List.find?_eq_none]
    intro x hx hlt
    exact hasymm x (hbefore x hx r List.mem_cons_self) (of_decide_eq_true hlt)
  rw [List.find?_append, hpre, Option.none_or, List.find?_cons, decide_eq_false hirrefl]
  cases rest with
  | nil => rfl
  | cons x rest => simp [hafter x List.mem_cons_self]

end SelectiveScan
