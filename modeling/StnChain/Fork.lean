import StnChain.Chain.StateRun

/-!
# Fork choice

Comparison of two histories of one chain by cumulative work (`stn_fork.c`).  The
candidate is given whole, or as a prefix of the current history and a suffix; the
suffix is validated with state alone.  `forkSuffix_agrees_iff` says when the two
evaluations agree.
-/

namespace StnChain

section

variable [Primitives]

/-! ## Reports and plans -/

/-- `stn_fork_result`. -/
inductive ForkResult
  | current | candidate | tie | invalidCurrent | invalidCandidate | error | unresolved
  | unsupported
  deriving DecidableEq, Repr

/-- `stn_fork_report`; the failed side is 1 for the current history, 2 for the
candidate and 0 for neither. -/
structure ForkReport where
  result : ForkResult
  failedSide : ℕ
  validation : ChainReport

/-- A report in which nothing is set but the index, which is not available. -/
def zeroForkReport : ForkReport where
  result := .current
  failedSide := 0
  validation := { initialReport with acceptance := .rejected }

/-- `stn_reorg_plan`. -/
structure ReorgPlan where
  actionable : Bool
  ancestorIndex : ℕ
  ancestorId : Octets 32
  detachBegin : ℕ
  detachEnd : ℕ
  attachBegin : ℕ
  attachEnd : ℕ
  detachedCount : ℕ
  attachedCount : ℕ
  current : ChainState
  candidate : ChainState
  resultingHeight : UInt64

/-- `stn_work_order`. -/
def workOrder (current candidate : Work) : ForkResult :=
  if current < candidate then .candidate else if candidate < current then .current else .tie

/-- `failure`; the detail of a report is absent when it is a success. -/
def ForkReport.failure (r : ForkReport) (side : ℕ) (detail : Option DataStatus) : ForkReport :=
  { r with
    failedSide := side
    result :=
      if detail = some .unresolved then .unresolved
      else if detail = some .providerError ∨ detail = some .argument ∨ side = 0 then .error
      else if side = 1 then .invalidCurrent else .invalidCandidate }

/-- `history`. -/
def forkHistory (c : ChainContext) (blocks : List Bytes) (side : ℕ) :
    Except ForkReport (ForkReport × ChainState) :=
  if blocks = [] then
    .error ({ zeroForkReport with validation := { zeroForkReport.validation with
      reason := .batchLimit
      detail := some .length } }.failure side (some .length))
  else
    match chainReconstructHistory c blocks with
    | (r, none) => .error ({ zeroForkReport with validation := r }.failure side r.detail)
    | (r, some s) => .ok ({ zeroForkReport with validation := r, result := .tie }, s)

/-- The plan of two valid histories whose first `common` blocks agree. -/
def reorgPlan (current candidate : ChainState) (common currentCount candidateCount : ℕ)
    (ancestorId : Octets 32) : ReorgPlan :=
  let actionable := workOrder current.cumulativeWork candidate.cumulativeWork = .candidate
  { actionable
    ancestorIndex := common - 1
    ancestorId
    detachBegin := common
    detachEnd := currentCount
    attachBegin := common
    attachEnd := candidateCount
    detachedCount := currentCount - common
    attachedCount := candidateCount - common
    current
    candidate
    resultingHeight := if actionable then candidate.height else current.height }

/-! ## Whole histories -/

/-- The number of leading blocks of equal identifier. -/
def commonBlocks (provider : HashProvider) : List Bytes → List Bytes → Except DataStatus ℕ
  | left :: lefts, right :: rights =>
      match chainBlockId left provider, chainBlockId right provider with
      | .ok l, .ok r => if l ≠ r then .ok 0 else (commonBlocks provider lefts rights).map (· + 1)
      | _, _ => .error .providerError
  | _, _ => .ok 0

/-- The end of both evaluations: the ancestor's identifier and the plan. -/
def forkPlan (c : ChainContext) (r : ForkReport) (blocks : List Bytes)
    (current candidate : ChainState) (common candidateCount : ℕ) :
    ForkReport × Option ReorgPlan :=
  match blocks[common - 1]?.map (chainBlockId · c.hashProvider) with
  | some (.ok ancestorId) =>
      ({ r with result := workOrder current.cumulativeWork candidate.cumulativeWork },
        some (reorgPlan current candidate common blocks.length candidateCount ancestorId))
  | _ => (r.failure 0 (some .providerError), none)

/-- `stn_fork_evaluate_history`. -/
def forkEvaluateHistory (c : ChainContext) (current candidate : List Bytes) :
    ForkReport × Option ReorgPlan :=
  if c.powPolicy.isNone then ({ zeroForkReport with result := .unsupported }, none)
  else
    match forkHistory c current 1 with
    | .error r => (r, none)
    | .ok (_, currentState) =>
        match forkHistory c candidate 2 with
        | .error r => (r, none)
        | .ok (r, candidateState) =>
            match commonBlocks c.hashProvider current candidate with
            | .error status => (r.failure 0 (some status), none)
            | .ok common =>
                if common = 0 then
                  ({ r with validation := { r.validation with
                    reason := .genesis
                    detail := some .content } }.failure 2 (some .content), none)
                else forkPlan c r current currentState candidateState common candidate.length

/-! ## Suffixes -/

/-- `stn_fork_evaluate_suffix`. -/
def forkEvaluateSuffix (c : ChainContext) (current : List Bytes) (prefixCount : ℕ)
    (suffix : List Bytes) : ForkReport × Option ReorgPlan :=
  if prefixCount = 0 ∨ prefixCount > current.length ∨ suffix = [] then
    ({ zeroForkReport with validation := { zeroForkReport.validation with
      detail := some .argument } }.failure 0 (some .argument), none)
  else if c.powPolicy.isNone then ({ zeroForkReport with result := .unsupported }, none)
  else
    match forkHistory c current 1 with
    | .error r => (r, none)
    | .ok (_, currentState) =>
        match forkHistory c (current.take prefixCount) 2 with
        | .error r => (r, none)
        | .ok (r, state) =>
            match PastRun.run (stateStep c) [] state suffix with
            | .error validation =>
                ({ r with validation }.failure 2 validation.detail, none)
            | .ok candidateState =>
                forkPlan c { r with validation := acceptedReport c } current currentState
                  candidateState prefixCount (prefixCount + suffix.length)

/-! ## Agreement -/

/-- A plan, less the capacities of its states' lifecycle storage. -/
def ReorgPlan.content (plan : ReorgPlan) : ReorgPlan :=
  { plan with current := plan.current.content, candidate := plan.candidate.content }

/-- The evaluation of a suffix has the result code and the plan of the evaluation
of the whole candidate. -/
def ForkAgrees (c : ChainContext) (current : List Bytes) (prefixCount : ℕ)
    (suffix : List Bytes) : Prop :=
  let bySuffix := forkEvaluateSuffix c current prefixCount suffix
  let byHistory := forkEvaluateHistory c current (current.take prefixCount ++ suffix)
  bySuffix.1.result = byHistory.1.result ∧
    bySuffix.2.map ReorgPlan.content = byHistory.2.map ReorgPlan.content

/-- A suffix leaves the current history at once: the current history ends where the
suffix starts, or its next block has another identifier. -/
def LeavesAt (c : ChainContext) (current : List Bytes) (prefixCount : ℕ)
    (suffix : List Bytes) : Prop :=
  ∀ left right, current[prefixCount]? = some left → suffix.head? = some right →
    chainBlockId left c.hashProvider ≠ chainBlockId right c.hashProvider

theorem commonBlocks_append {provider : HashProvider} {front : List Bytes}
    (hids : ∀ bytes ∈ front, ∃ id, chainBlockId bytes provider = .ok id)
    (lefts rights : List Bytes) :
    commonBlocks provider (front ++ lefts) (front ++ rights) =
      (commonBlocks provider lefts rights).map (· + front.length) := by
  induction front with
  | nil =>
      simp only [List.nil_append, List.length_nil, Nat.add_zero]
      cases commonBlocks provider lefts rights <;> rfl
  | cons bytes front ih =>
      obtain ⟨id, hid⟩ := hids bytes (by simp)
      simp only [List.cons_append, commonBlocks, hid, ne_eq, not_true_eq_false, ↓reduceIte,
        ih fun t ht => hids t (by simp [ht]), List.length_cons]
      cases commonBlocks provider lefts rights <;> simp [Except.map, Nat.add_assoc]

/-- Of two histories with identifiers, the number of common blocks is within both,
and zero when they part at once. -/
theorem commonBlocks_eq_ok {provider : HashProvider} {lefts rights : List Bytes}
    (hlefts : ∀ bytes ∈ lefts, ∃ id, chainBlockId bytes provider = .ok id)
    (hrights : ∀ bytes ∈ rights, ∃ id, chainBlockId bytes provider = .ok id) :
    ∃ n, commonBlocks provider lefts rights = .ok n ∧ n ≤ lefts.length ∧
      (n = 0 ↔ ∀ left right, lefts.head? = some left → rights.head? = some right →
        chainBlockId left provider ≠ chainBlockId right provider) := by
  induction lefts generalizing rights with
  | nil => exact ⟨0, by simp [commonBlocks], le_rfl, by simp⟩
  | cons left lefts ih =>
      cases rights with
      | nil => exact ⟨0, by simp [commonBlocks], Nat.zero_le _, by simp⟩
      | cons right rights =>
          obtain ⟨l, hl⟩ := hlefts left (by simp)
          obtain ⟨r, hr⟩ := hrights right (by simp)
          have hrest : ∀ t ∈ rights, ∃ id, chainBlockId t provider = .ok id := fun t ht =>
            hrights t (by simp [ht])
          obtain ⟨n, hn, hle, -⟩ := ih (fun t ht => hlefts t (by simp [ht])) hrest
          by_cases heq : l = r
          · exact ⟨n + 1, by simp [commonBlocks, hl, hr, heq, hn, Except.map], by simpa using hle,
              by simp [hl, hr, heq]⟩
          · exact ⟨0, by simp [commonBlocks, hl, hr, heq], Nat.zero_le _, by simp [hl, hr, heq]⟩

theorem forkHistory_of_accepts {c : ChainContext} {blocks : List Bytes} {s : ChainState}
    (h : Accepts c blocks s) (side : ℕ) :
    forkHistory c blocks side =
      .ok ({ zeroForkReport with validation := acceptedReport c, result := .tie }, s) := by
  have hne := (accepts_iff.mp h).1
  simp only [Accepts] at h
  simp only [forkHistory, if_neg hne, h]

/-- The plan of two histories within the current one. -/
theorem forkPlan_of_le {c : ChainContext} {r : ForkReport} {blocks : List Bytes}
    (current candidate : ChainState) {common : ℕ} (candidateCount : ℕ)
    (hids : ∀ bytes ∈ blocks, ∃ id, chainBlockId bytes c.hashProvider = .ok id)
    (hpositive : 0 < common) (hle : common ≤ blocks.length) :
    ∃ ancestorId, forkPlan c r blocks current candidate common candidateCount =
      ({ r with result := workOrder current.cumulativeWork candidate.cumulativeWork },
        some (reorgPlan current candidate common blocks.length candidateCount ancestorId)) ∧
      ∀ bytes, blocks[common - 1]? = some bytes →
        chainBlockId bytes c.hashProvider = .ok ancestorId := by
  have hlt : common - 1 < blocks.length := by omega
  obtain ⟨id, hid⟩ := hids blocks[common - 1] (List.getElem_mem hlt)
  have hget : blocks[common - 1]? = some blocks[common - 1] := List.getElem?_eq_getElem hlt
  refine ⟨id, by simp [forkPlan, hget, hid], fun bytes hbytes => ?_⟩
  obtain rfl := Option.some.inj (hget.symm.trans hbytes)
  exact hid

omit [Primitives] in
theorem workOrder_ne_unresolved (current candidate : Work) :
    workOrder current candidate ≠ .unresolved := by
  simp only [workOrder]
  split
  · simp
  · split <;> simp

section Suffix

variable {c : ChainContext} {current suffix : List Bytes} {currentState state : ChainState}
  {prefixCount : ℕ} (hpolicy : c.powPolicy.isSome) (hcurrent : Accepts c current currentState)
  (hpositive : 0 < prefixCount) (hle : prefixCount ≤ current.length) (hsuffix : suffix ≠ [])
  (hstate : Reaches c (current.take prefixCount) state)

include hpolicy hcurrent hpositive hle hsuffix hstate

theorem forkEvaluateSuffix_eq :
    forkEvaluateSuffix c current prefixCount suffix =
      match PastRun.run (stateStep c) [] state suffix with
      | .error validation =>
          ({ zeroForkReport with validation, result := .tie }.failure 2 validation.detail, none)
      | .ok candidateState =>
          forkPlan c { zeroForkReport with validation := acceptedReport c, result := .tie } current
            currentState candidateState prefixCount (prefixCount + suffix.length) := by
  have hprefix : Accepts c (current.take prefixCount) state := by
    refine accepts_iff.mpr ⟨?_, hstate⟩
    rw [Ne, List.take_eq_nil_iff]
    rintro (hzero | hnil)
    · omega
    · simp [hnil] at hle
      omega
  have hvalid : ¬(prefixCount = 0 ∨ prefixCount > current.length ∨ suffix = []) := by
    rintro (h | h | h)
    · omega
    · omega
    · exact hsuffix h
  have hsome : ¬c.powPolicy.isNone = true := by
    simpa [Option.isSome_iff_ne_none, Option.isNone_iff_eq_none] using hpolicy
  simp only [forkEvaluateSuffix, if_neg hvalid, if_neg hsome, forkHistory_of_accepts hcurrent,
    forkHistory_of_accepts hprefix]

/-- On an accepted candidate the evaluations agree exactly when every block of the
suffix is checkable from the state before it and the suffix leaves at once. -/
theorem forkAgrees_of_accepts_iff {t : ChainState}
    (ht : Accepts c (current.take prefixCount ++ suffix) t) :
    ForkAgrees c current prefixCount suffix ↔
      checkableFrom c.hashProvider state.tipId suffix = true ∧
        LeavesAt c current prefixCount suffix := by
  obtain ⟨-, hreach⟩ := accepts_iff.mp ht
  obtain ⟨-, hreachCurrent⟩ := accepts_iff.mp hcurrent
  have hids := fun bytes (h : bytes ∈ current) => hreachCurrent.blockId_of_mem h
  have hidsWhole := fun bytes (h : bytes ∈ current.take prefixCount ++ suffix) =>
    hreach.blockId_of_mem h
  have hidsRest : ∀ bytes ∈ current.drop prefixCount, ∃ id,
      chainBlockId bytes c.hashProvider = .ok id :=
        fun bytes h => hids bytes (List.mem_of_mem_drop h)
  have hidsSuffix : ∀ bytes ∈ suffix, ∃ id, chainBlockId bytes c.hashProvider = .ok id :=
    fun bytes h => hidsWhole bytes (List.mem_append_right _ h)
  obtain ⟨n, hn, hbound, hzero⟩ := commonBlocks_eq_ok hidsRest hidsSuffix
  have hleaves : LeavesAt c current prefixCount suffix ↔ n = 0 := by
    rw [hzero, List.head?_drop]
    rfl
  have hcommon : commonBlocks c.hashProvider current (current.take prefixCount ++ suffix) =
      .ok (n + prefixCount) := by
    have hidsFront : ∀ bytes ∈ current.take prefixCount, ∃ id,
        chainBlockId bytes c.hashProvider = .ok id := fun bytes h =>
      hids bytes (List.mem_of_mem_take h)
    have h := commonBlocks_append hidsFront (current.drop prefixCount) suffix
    rwa [List.take_append_drop, hn, List.length_take, min_eq_left hle] at h
  have hlength : (current.take prefixCount ++ suffix).length = prefixCount + suffix.length := by
    rw [List.length_append, List.length_take, min_eq_left hle]
  have hwhole : forkEvaluateHistory c current (current.take prefixCount ++ suffix) =
      forkPlan c { zeroForkReport with validation := acceptedReport c, result := .tie } current
        currentState t (n + prefixCount) (prefixCount + suffix.length) := by
    have hsome : ¬c.powPolicy.isNone = true := by
      simpa [Option.isSome_iff_ne_none, Option.isNone_iff_eq_none] using hpolicy
    have hne : n + prefixCount ≠ 0 := by omega
    simp only [forkEvaluateHistory, if_neg hsome, forkHistory_of_accepts hcurrent,
      forkHistory_of_accepts ht, hcommon, if_neg hne, hlength]
  rw [List.length_drop] at hbound
  have hplans (candidate : ChainState) {common : ℕ} (hpositive : 0 < common)
      (hle : common ≤ current.length) :=
    forkPlan_of_le (r := { zeroForkReport with validation := acceptedReport c, result := .tie })
      currentState candidate (prefixCount + suffix.length) hids hpositive hle
  obtain ⟨ancestorId, hplan, hancestor⟩ := hplans t (by omega : 0 < n + prefixCount) (by omega)
  obtain ⟨hok, hopen⟩ := hstate.stateRun rfl hreach []
  simp only [ForkAgrees, hwhole, hplan, forkEvaluateSuffix_eq hpolicy hcurrent hpositive hle
    hsuffix hstate, hleaves]
  cases hcheckable : checkableFrom c.hashProvider state.tipId suffix with
  | false =>
      obtain ⟨r, hrun, -, hdetail⟩ := hopen hcheckable
      simp only [hrun, Bool.false_eq_true, false_and, iff_false]
      rintro ⟨hresult, -⟩
      simp only [ForkReport.failure, hdetail, ↓reduceIte] at hresult
      exact workOrder_ne_unresolved _ _ hresult.symm
  | true =>
      obtain ⟨t', hrun, hcontent⟩ := hok hcheckable
      have hwork : t'.cumulativeWork = t.cumulativeWork :=
        (SameTip.of_content hcontent).cumulativeWork
      have hheight : t'.height = t.height := (SameTip.of_content hcontent).height
      obtain ⟨ancestorId', hplan', hancestor'⟩ := hplans t' hpositive hle
      simp only [hrun, hplan', Option.map_some, Option.some.injEq, true_and, hwork]
      constructor
      · intro heq
        have hindex := congrArg ReorgPlan.ancestorIndex heq
        simp only [ReorgPlan.content, reorgPlan] at hindex
        omega
      · rintro rfl
        have hlt : prefixCount - 1 < current.length := by omega
        have hget : current[prefixCount - 1]? = some current[prefixCount - 1] :=
          List.getElem?_eq_getElem hlt
        have hid := hancestor' _ hget
        rw [Nat.zero_add] at hancestor
        obtain rfl := Except.ok.inj (hid.symm.trans (hancestor _ hget))
        simp only [reorgPlan, ReorgPlan.content, hcontent, hwork, hheight, Nat.zero_add]

omit hpolicy hcurrent hpositive hle in
/-- The reconstruction of a refused candidate fails in the run over its suffix. -/
theorem reconstruct_refused (hrefused : ∀ t, ¬Accepts c (current.take prefixCount ++ suffix) t) :
    ∃ r, PastRun.run (reconstructStep c) (current.take prefixCount) state suffix = .error r ∧
      chainReconstructHistory c (current.take prefixCount ++ suffix) = (r, none) := by
  have hwhole : current.take prefixCount ++ suffix ≠ [] := by simp [hsuffix]
  obtain ⟨initial, hinit, hrun⟩ := hstate
  have happend := PastRun.run_of_reach hrun suffix
  cases hresult : PastRun.run (reconstructStep c) (current.take prefixCount) state suffix with
  | error r =>
      refine ⟨r, rfl, ?_⟩
      simp only [chainReconstructHistory, if_neg hwhole, hinit, happend, hresult]
  | ok t =>
      refine absurd ?_ (hrefused t)
      simp only [Accepts, chainReconstructHistory, if_neg hwhole, hinit, happend, hresult]

/-- On a refused candidate whose suffix meets no misread share up to the block that is refused,
the evaluations agree exactly when the suffix misses no prefix either, or the candidate is
unresolved. -/
theorem forkAgrees_of_refused_iff
    (hrefused : ∀ t, ¬Accepts c (current.take prefixCount ++ suffix) t)
    (hmisread : suffixGap c (current.take prefixCount) state suffix ≠ some .misread) :
    ForkAgrees c current prefixCount suffix ↔
      suffixGap c (current.take prefixCount) state suffix = none ∨
        ∃ r, chainReconstructHistory c (current.take prefixCount ++ suffix) = (r, none) ∧
          r.detail = some .unresolved := by
  have hwhole : current.take prefixCount ++ suffix ≠ [] := by simp [hsuffix]
  have hsome : ¬c.powPolicy.isNone = true := by
    simpa [Option.isSome_iff_ne_none, Option.isNone_iff_eq_none] using hpolicy
  obtain ⟨r, hfull, hreconstruct⟩ := reconstruct_refused hsuffix hstate hrefused
  have hhistory : forkHistory c (current.take prefixCount ++ suffix) 2 =
      .error ({ zeroForkReport with validation := r }.failure 2 r.detail) := by
    simp only [forkHistory, if_neg hwhole, hreconstruct]
  have hunresolved : (∃ r', chainReconstructHistory c (current.take prefixCount ++ suffix) =
      (r', none) ∧ r'.detail = some .unresolved) ↔ r.detail = some .unresolved := by
    simp [hreconstruct]
  obtain ⟨hnone, hmissing⟩ := hstate.gapRun rfl [] suffix
  rw [hunresolved]
  simp only [ForkAgrees, forkEvaluateHistory, if_neg hsome, forkHistory_of_accepts hcurrent,
    hhistory, forkEvaluateSuffix_eq hpolicy hcurrent hpositive hle hsuffix hstate]
  cases hgap : suffixGap c (current.take prefixCount) state suffix with
  | none =>
      obtain ⟨u, t', hok, -⟩ | ⟨r₁, r', haware, halone, hdetail⟩ := hnone hgap
      · cases hfull.symm.trans hok
      · obtain rfl : r = r₁ := Except.error.inj (hfull.symm.trans haware)
        simp [halone, ForkReport.failure, hdetail]
  | some gap =>
      have hgap' : gap = .missing := by
        cases gap with
        | missing => rfl
        | misread => exact absurd hgap hmisread
      obtain ⟨r', halone, hdetail⟩ := hmissing (hgap.trans (congrArg some hgap'))
      simp only [halone, ForkReport.failure, hdetail, ↓reduceIte, Option.map_none, and_true,
        reduceCtorEq, false_or]
      by_cases hopen : r.detail = some .unresolved
      · simp [hopen]
      · simp only [if_neg hopen]
        split <;> simp [hopen]

end Suffix

/-- Evaluating a suffix agrees with evaluating the candidate it completes.  Under a proof-of-work
policy this holds for an accepted candidate exactly when every block of the suffix is checkable
from the state before it and the suffix leaves the current history at once; and for a refused
candidate, as long as no share is misread, exactly when no transaction up to the refused one
misses the prefix, or the candidate is unresolved. -/
theorem forkSuffix_agrees_iff {c : ChainContext} {current : List Bytes}
    {currentState : ChainState} (h : Accepts c current currentState) {prefixCount : ℕ}
    (hpositive : 0 < prefixCount) (hle : prefixCount ≤ current.length) {suffix : List Bytes}
    (hsuffix : suffix ≠ []) {state : ChainState}
    (hstate : Reaches c (current.take prefixCount) state) :
    ((∃ t, Accepts c (current.take prefixCount ++ suffix) t) →
      (ForkAgrees c current prefixCount suffix ↔ c.powPolicy = none ∨
        (checkableFrom c.hashProvider state.tipId suffix = true ∧
          LeavesAt c current prefixCount suffix))) ∧
    ((∀ t, ¬Accepts c (current.take prefixCount ++ suffix) t) →
      suffixGap c (current.take prefixCount) state suffix ≠ some .misread →
      (ForkAgrees c current prefixCount suffix ↔ c.powPolicy = none ∨
        suffixGap c (current.take prefixCount) state suffix = none ∨
        ∃ r, chainReconstructHistory c (current.take prefixCount ++ suffix) = (r, none) ∧
          r.detail = some .unresolved)) := by
  cases hpolicy : c.powPolicy with
  | none =>
      have hagrees : ForkAgrees c current prefixCount suffix := by
        have hvalid : ¬(prefixCount = 0 ∨ prefixCount > current.length ∨ suffix = []) := by
          rintro (h | h | h)
          · omega
          · omega
          · exact hsuffix h
        simp only [ForkAgrees, forkEvaluateSuffix, forkEvaluateHistory, if_neg hvalid, hpolicy]
        exact ⟨rfl, rfl⟩
      exact ⟨fun _ => by simp [hagrees], fun _ _ => by simp [hagrees]⟩
  | some policy =>
      have hsome : c.powPolicy.isSome := by simp [hpolicy]
      constructor
      · rintro ⟨t, ht⟩
        simpa using forkAgrees_of_accepts_iff hsome h hpositive hle hsuffix hstate ht
      · intro hrefused hmisread
        simpa using forkAgrees_of_refused_iff hsome h hpositive hle hsuffix hstate hrefused hmisread

end

section Sample

attribute [local instance] Sample.primitives

open Sample

/-- A suffix with share evidence is unresolved, though its candidate is accepted. -/
theorem sample_fork_differs :
    ¬ ∀ (c : ChainContext) (current : List Bytes) (s : ChainState), Accepts c current s →
      ∀ prefixCount, 0 < prefixCount → prefixCount ≤ current.length →
        ∀ suffix, suffix ≠ [] → ForkAgrees c current prefixCount suffix := by
  intro h
  obtain ⟨-, s, hs⟩ := accepts_front
  have hresult := (h context _ s hs 2 (by decide) (by decide) [honest] (by simp)).1
  revert hresult
  decide +kernel

/-- The second block of the suffix is no block; the first one repeats a block of the history. -/
theorem sample_fork_agrees :
    (∃ s, Accepts context [genesis] s) ∧ (∃ t, Accepts context [genesis, empty] t) ∧
      ForkAgrees context [genesis] 1 [empty] ∧
      ForkAgrees context [genesis, empty] 1 [empty, [1, 2, 3]] := by
  obtain ⟨s, hs, hcheckable⟩ :=
    accepts_of_any context [genesis] (fun s => checkableFrom context.hashProvider s.tipId [empty])
      (by decide +kernel)
  obtain ⟨u, hu, hgap⟩ :=
    accepts_of_any context [genesis]
      (fun s => decide (suffixGap context [genesis] s [empty, [1, 2, 3]] = none))
      (by decide +kernel)
  obtain ⟨-, t, ht⟩ := accepts_front
  have hleaves : LeavesAt context [genesis] 1 [empty] := by
    intro left right hleft
    cases hleft
  have hreach : Reaches context ([genesis].take 1) s := (accepts_iff.mp hs).2
  have hreach' : Reaches context ([genesis, empty].take 1) u := (accepts_iff.mp hu).2
  have hgap : suffixGap context ([genesis, empty].take 1) u [empty, [1, 2, 3]] = none :=
    of_decide_eq_true hgap
  have hread : suffixGap context ([genesis, empty].take 1) u [empty, [1, 2, 3]] ≠
      some .misread := by
    rw [hgap]
    exact nofun
  have hrefused : ∀ t, ¬Accepts context ([genesis, empty].take 1 ++ [empty, [1, 2, 3]]) t := by
    have hnone : (chainReconstructHistory context [genesis, empty, [1, 2, 3]]).2 = none := by
      decide +kernel
    intro t ht
    have hsome := congrArg Prod.snd ht
    cases hnone.symm.trans hsome
  exact ⟨⟨s, hs⟩, ⟨t, ht⟩,
    ((forkSuffix_agrees_iff hs Nat.one_pos le_rfl (List.cons_ne_nil _ _) hreach).1
      ⟨t, ht⟩).mpr (.inr ⟨hcheckable, hleaves⟩),
    ((forkSuffix_agrees_iff ht Nat.one_pos (by decide) (List.cons_ne_nil _ _) hreach').2 hrefused
      hread).mpr (.inr (.inl hgap))⟩

end Sample

end StnChain
