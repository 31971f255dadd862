import Mathlib.Data.List.Range
import Mathlib.Data.List.Induction
import Mathlib.Tactic.Ring

/-!
# A scan that is resumed

The positions `0, …, last` are tested in order, each call for a bounded number of them from
where the call before stopped.  A call ends early at a hit, and after the last position the
scan starts anew.  Consecutive calls test the positions one after the other, each once, up to
the last, `run_snoc`.
-/

namespace ResumableScan

/-- How a call ends. -/
inductive Ending
  | idle | hit (pos : ℕ) | exhausted

/-- What a call leaves: how it ended, where the next one starts, and the positions it
tested. -/
structure Outcome where
  ending : Ending
  next : ℕ
  tested : List ℕ

/-- A call for a number of positions. -/
def scan (p : ℕ → Bool) (last : ℕ) : ℕ → ℕ → Outcome
  | 0, pos => ⟨.idle, pos, []⟩
  | budget + 1, pos =>
      if p pos then ⟨.hit pos, if pos = last then 0 else pos + 1, [pos]⟩
      else if pos = last then ⟨.exhausted, 0, [pos]⟩
      else
        let rest := scan p last budget (pos + 1)
        { rest with tested := pos :: rest.tested }

/-- A call has tested `count` positions in order; it found one of them, or went through its
budget or to the last position without a find. -/
structure Scanned (p : ℕ → Bool) (last budget pos count : ℕ) (o : Outcome) : Prop where
  tested : o.tested = List.range' pos count
  bounded : count ≤ budget
  progress : 0 < budget → 0 < count
  within : pos + count ≤ last + 1
  next : o.next = if pos + count = last + 1 then 0 else pos + count
  ending : match o.ending with
    | .idle => count = budget ∧ pos + count ≤ last ∧
        ∀ k, pos ≤ k → k < pos + count → p k = false
    | .hit k => pos ≤ k ∧ k + 1 = pos + count ∧ p k = true
    | .exhausted => pos + count = last + 1 ∧ ∀ k, pos ≤ k → k < pos + count → p k = false

theorem scan_scanned (p : ℕ → Bool) {last : ℕ} (budget : ℕ) {pos : ℕ} (h : pos ≤ last) :
    ∃ count, Scanned p last budget pos count (scan p last budget pos) := by
  induction budget generalizing pos with
  | zero =>
      refine ⟨0, rfl, le_rfl, fun hpos => absurd hpos (lt_irrefl 0), by omega, ?_, rfl, h, ?_⟩
      · exact (if_neg (by omega)).symm
      · intro k hk hk'
        omega
  | succ budget ih =>
      rw [scan]
      by_cases hhit : p pos
      · rw [if_pos hhit]
        refine ⟨1, rfl, by omega, fun _ => Nat.one_pos, by omega, ?_, le_rfl, rfl, hhit⟩
        simp only [Nat.add_right_cancel_iff]
      · rw [if_neg hhit]
        have hmiss : p pos = false := Bool.eq_false_iff.mpr hhit
        by_cases hlast : pos = last
        · rw [if_pos hlast]
          refine ⟨1, rfl, by omega, fun _ => Nat.one_pos, by omega, ?_, by omega, ?_⟩
          · exact (if_pos (by omega)).symm
          · intro k hk hk'
            rwa [show k = pos by omega]
        · rw [if_neg hlast]
          obtain ⟨count, hrest⟩ := ih (Nat.lt_of_le_of_ne h hlast)
          have hsum : pos + (count + 1) = pos + 1 + count := by ring
          have hmissed (hnone : ∀ k, pos + 1 ≤ k → k < pos + 1 + count → p k = false) :
              ∀ k, pos ≤ k → k < pos + (count + 1) → p k = false := by
            intro k hk hk'
            rcases Nat.eq_or_lt_of_le hk with rfl | hk
            · exact hmiss
            · exact hnone k hk (hsum ▸ hk')
          refine ⟨count + 1, ?_, Nat.succ_le_succ hrest.bounded, fun _ => Nat.succ_pos _,
            ?_, ?_, ?_⟩
          · rw [List.range'_succ]
            exact congrArg (pos :: ·) hrest.tested
          · rw [hsum]
            exact hrest.within
          · rw [hsum]
            exact hrest.next
          · have hending := hrest.ending
            revert hending
            cases (scan p last budget (pos + 1)).ending with
            | idle =>
                rintro ⟨hcount, hlow, hnone⟩
                exact ⟨by rw [hcount], by rwa [hsum], hmissed hnone⟩
            | hit k =>
                rintro ⟨hk, hend, hp⟩
                exact ⟨Nat.le_of_succ_le hk, by rwa [hsum], hp⟩
            | exhausted =>
                rintro ⟨hend, hnone⟩
                exact ⟨by rwa [hsum], hmissed hnone⟩

/-! ## Consecutive calls -/

/-- Where the next call starts and what was tested, after some calls from `0`; a call has what
it looks for and its budget. -/
def run (last : ℕ) (calls : List ((ℕ → Bool) × ℕ)) : ℕ × List ℕ :=
  calls.foldl (fun s call =>
    ((scan call.1 last call.2 s.1).next, s.2 ++ (scan call.1 last call.2 s.1).tested)) (0, [])

theorem run_append_singleton (last : ℕ) (calls : List ((ℕ → Bool) × ℕ))
    (call : (ℕ → Bool) × ℕ) :
    run last (calls ++ [call]) =
      ((scan call.1 last call.2 (run last calls).1).next,
        (run last calls).2 ++ (scan call.1 last call.2 (run last calls).1).tested) := by
  rw [run, List.foldl_append]
  exact rfl

/-- The next call starts from a position. -/
theorem run_next_le (last : ℕ) (calls : List ((ℕ → Bool) × ℕ)) : (run last calls).1 ≤ last := by
  induction calls using List.reverseRecOn with
  | nil => exact Nat.zero_le last
  | append_singleton calls call ih =>
      obtain ⟨count, hscanned⟩ := scan_scanned call.1 call.2 ih
      have hwithin := hscanned.within
      rw [run_append_singleton, hscanned.next]
      split
      · exact Nat.zero_le last
      · omega

/-- One more call after calls that have tested the positions below its start. -/
theorem run_step {last : ℕ} {calls : List ((ℕ → Bool) × ℕ)}
    (htested : (run last calls).2 = List.range (run last calls).1) (call : (ℕ → Bool) × ℕ) :
    ∃ count, (0 < call.2 → 0 < count) ∧ (run last calls).1 + count ≤ last + 1 ∧
      (run last (calls ++ [call])).2 = List.range ((run last calls).1 + count) ∧
      (run last (calls ++ [call])).1 =
        if (run last calls).1 + count = last + 1 then 0 else (run last calls).1 + count := by
  obtain ⟨count, hscanned⟩ := scan_scanned call.1 call.2 (run_next_le last calls)
  refine ⟨count, hscanned.progress, hscanned.within, ?_, ?_⟩
  · rw [run_append_singleton, hscanned.tested, htested]
    show List.range _ ++ List.range' _ count = List.range _
    rw [List.range_eq_range', List.range_eq_range', ← List.range'_append_1, Nat.zero_add]
  · rw [run_append_singleton]
    exact hscanned.next

/-- As long as the last position has not been tested, the positions below the next start
have been, in order. -/
theorem run_before {last : ℕ} {calls : List ((ℕ → Bool) × ℕ)}
    (h : last ∉ (run last calls).2) : (run last calls).2 = List.range (run last calls).1 := by
  induction calls using List.reverseRecOn with
  | nil => exact rfl
  | append_singleton calls call ih =>
      have hbefore : last ∉ (run last calls).2 := by
        rw [run_append_singleton] at h
        exact fun hmem => h (List.mem_append_left _ hmem)
      obtain ⟨count, -, hwithin, htested', hnext'⟩ := run_step (ih hbefore) call
      rw [htested', List.mem_range] at h
      have hlow : (run last calls).1 + count ≠ last + 1 := by omega
      rw [if_neg hlow] at hnext'
      rw [htested', hnext']

/-- The call in which the last position is tested, and every call before it, goes on where
the positions tested so far end. -/
theorem run_snoc {last : ℕ} {calls : List ((ℕ → Bool) × ℕ)} (h : last ∉ (run last calls).2)
    (call : (ℕ → Bool) × ℕ) :
    ∃ n ≤ last + 1, (run last (calls ++ [call])).2 = List.range n ∧
      (0 < call.2 → (run last calls).2.length < n) := by
  have htested := run_before h
  obtain ⟨count, hprogress, hwithin, htested', -⟩ := run_step htested call
  refine ⟨_, hwithin, htested', fun hbudget => ?_⟩
  rw [htested, List.length_range]
  exact Nat.lt_add_of_pos_right (hprogress hbudget)

/-- Calls with a budget test as many positions as there are calls, or the last one. -/
theorem run_progress {last : ℕ} {calls : List ((ℕ → Bool) × ℕ)}
    (hbudget : ∀ call ∈ calls, 0 < call.2) (h : last ∉ (run last calls).2) :
    calls.length ≤ (run last calls).2.length := by
  induction calls using List.reverseRecOn with
  | nil => exact Nat.zero_le _
  | append_singleton calls call ih =>
      have hbefore : last ∉ (run last calls).2 := by
        rw [run_append_singleton] at h
        exact fun hmem => h (List.mem_append_left _ hmem)
      have hrest := ih (fun c hc => hbudget c (List.mem_append_left _ hc)) hbefore
      obtain ⟨n, -, htested, hmore⟩ := run_snoc hbefore call
      have hone := hmore (hbudget call (List.mem_append_right _ (List.mem_singleton_self call)))
      rw [htested, List.length_range, List.length_append, List.length_singleton]
      omega

/-- Enough calls with a budget reach the last position. -/
theorem run_reaches {last : ℕ} {calls : List ((ℕ → Bool) × ℕ)}
    (hbudget : ∀ call ∈ calls, 0 < call.2) (hcalls : last < calls.length) :
    last ∈ (run last calls).2 := by
  by_contra h
  have hlength := run_progress hbudget h
  have hnext := run_next_le last calls
  rw [run_before h, List.length_range] at hlength
  omega

end ResumableScan
