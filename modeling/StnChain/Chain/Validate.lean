import StnChain.Chain.Apply
import StnChain.Chain.Candidate

/-!
# Candidate validation

`validate_candidate` of `stn_chain.c`: a candidate is prepared from the prior
state and its transactions are applied, in reconstruction with the accepted
prefix at hand and in `stn_chain_validate_candidate` without it.
-/

namespace StnChain

variable [Primitives]

/-! ## Validation -/

/-- The report at the end of `validate_candidate`. -/
def ChainReport.accept (r : ChainReport) : ChainReport :=
  { r with
    acceptance := .underContext
    reason := .none
    failingIndex := none
    failingHeight := none }

/-- What the loop of a candidate's validation reads. -/
def candidateEnv (c : ChainContext) (prior : ChainState) (history : Option (List Bytes))
    (b : Block) (flags : CandidateFlags) : CandidateEnv where
  context := c
  prior
  history
  header := b.header
  hasLifecycle := flags.lifecycle

/-- `validate_candidate`. -/
def validateCandidate (c : ChainContext) (prior : ChainState) (history : Option (List Bytes))
    (bytes : Bytes) (reconstruct : Bool) : Except ChainReport (ChainReport × ChainState) := do
  let (r, b, flags, candidate) ← prepareCandidate c prior bytes reconstruct
  match (if flags.any then
      applyTransactions (candidateEnv c prior history b flags) b.transactions candidate
    else .ok candidate) with
  | .error status => .error ({ r with body := failureStage status }.fail .body status)
  | .ok next => .ok (r.accept, next)

/-- A validation result as its report and the state it writes. -/
def chainResult : Except ChainReport (ChainReport × ChainState) → ChainReport × Option ChainState
  | .error r => (r, none)
  | .ok (r, s) => (r, some s)

/-- `stn_chain_validate_candidate`. -/
def chainValidateCandidate (c : ChainContext) (prior : ChainState) (bytes : Bytes) :
    ChainReport × Option ChainState :=
  chainResult (validateCandidate c prior none bytes false)

/-- The report of an accepted candidate. -/
def acceptedReport (c : ChainContext) : ChainReport :=
  let worked := if c.powPolicy.isNone then .notRun else .pass
  { initialReport with
    blockStructure := .pass
    link := .pass
    body := .pass
    identifier := .pass
    pow := worked
    target := worked
    work := worked
    acceptance := .underContext }

/-! ## What validation establishes -/

/-- Without lifecycle changes the loop passes over publications. -/
theorem applyTransactions_publications {env : CandidateEnv} (henv : env.hasLifecycle = false)
    {ts : List Bytes} (s : ChainState)
    (hts : ∀ t ∈ ts, ∃ tx, transactionDecode t = .ok tx ∧ tx.type = .publication) :
    applyTransactions env ts s = .ok s := by
  induction ts with
  | nil => rfl
  | cons t ts ih =>
      obtain ⟨⟨tx, hdecode, htype⟩, hrest⟩ := List.forall_mem_cons.mp hts
      rw [applyTransactions_cons hdecode (by simp [htype])]
      have hstep : applyTransaction env tx s = .ok s := by
        simp only [applyTransaction, htype, applyLifecycle, henv]
        rfl
      rw [hstep]
      exact ih hrest

/-- The loop may be entered whatever the flags are. -/
theorem CandidatePrepared.apply_eq {c : ChainContext} {prior : ChainState} {bytes : Bytes}
    {reconstruct : Bool} {b : Block} {flags : CandidateFlags} {candidate : ChainState}
    (h : CandidatePrepared c prior bytes reconstruct b flags candidate)
    (history : Option (List Bytes)) :
    (if flags.any then
        applyTransactions (candidateEnv c prior history b flags) b.transactions candidate
      else .ok candidate) =
      applyTransactions (candidateEnv c prior history b flags) b.transactions candidate := by
  split
  · rfl
  next hunset =>
  have hunset : flags.any = false := by simpa using hunset
  have hlifecycle : flags.lifecycle = false := by
    simp only [CandidateFlags.any, Bool.or_eq_false_iff] at hunset
    tauto
  exact (applyTransactions_publications hlifecycle candidate
    (scanBody_unset h.scan hunset).2).symm

/-- A candidate is accepted exactly when it is prepared and its transactions apply. -/
theorem validateCandidate_eq_ok_iff {c : ChainContext} {prior : ChainState}
    {history : Option (List Bytes)} {bytes : Bytes} {reconstruct : Bool} {r : ChainReport}
    {s' : ChainState} :
    validateCandidate c prior history bytes reconstruct = .ok (r, s') ↔
      ∃ b flags candidate, CandidatePrepared c prior bytes reconstruct b flags candidate ∧
        Applied (candidateEnv c prior history b flags) b.transactions candidate s' ∧
        r = acceptedReport c := by
  constructor
  · intro h
    obtain ⟨⟨r', b, flags, candidate⟩, hprepare, h⟩ := bind_eq_ok_iff.mp h
    obtain ⟨hprepared, rfl⟩ := prepareCandidate_iff.mp hprepare
    dsimp only at h
    rw [hprepared.apply_eq history] at h
    split at h
    · simp at h
    next next hnext =>
    obtain ⟨rfl, rfl⟩ := Prod.mk.inj (Except.ok.inj h)
    exact ⟨b, flags, candidate, hprepared, applyTransactions_eq_ok_iff.mp hnext, rfl⟩
  · rintro ⟨b, flags, candidate, hprepared, happlied, rfl⟩
    refine bind_eq_ok_iff.mpr ⟨_, prepareCandidate_iff.mpr ⟨hprepared, rfl⟩, ?_⟩
    dsimp only
    rw [hprepared.apply_eq history, applyTransactions_eq_ok_iff.mpr happlied]
    rfl

/-- A report that `fail` made. -/
def ChainReport.Failed (r : ChainReport) : Prop :=
  ∃ r' reason detail, r = ChainReport.fail r' reason detail

omit [Primitives] in
theorem ChainReport.Failed.acceptance {r : ChainReport} (h : r.Failed) :
    r.acceptance ≠ .underContext := by
  obtain ⟨r', reason, detail, rfl⟩ := h
  cases detail <;> simp [ChainReport.fail, failureAcceptance]

/-- Every refusal of a candidate before its transactions is a failure report. -/
theorem prepareCandidate_error {c : ChainContext} {prior : ChainState} {bytes : Bytes}
    {reconstruct : Bool} {r : ChainReport}
    (h : prepareCandidate c prior bytes reconstruct = .error r) : r.Failed := by
  rcases bind_eq_error_iff.mp h with hblock | ⟨⟨r₀, b⟩, -, h⟩
  · simp only [candidateBlock] at hblock
    split at hblock
    · exact ⟨_, _, _, (Except.error.inj hblock).symm⟩
    split at hblock
    · exact ⟨_, _, _, (Except.error.inj hblock).symm⟩
    split at hblock
    · exact ⟨_, _, _, (Except.error.inj hblock).symm⟩
    · simp at hblock
  rcases bind_eq_error_iff.mp h with hlink | ⟨r₁, -, h⟩
  · simp only [candidateLink] at hlink
    split at hlink
    · exact ⟨_, _, _, (Except.error.inj hlink).symm⟩
    split at hlink
    · exact ⟨_, _, _, (Except.error.inj hlink).symm⟩
    · simp at hlink
  rcases bind_eq_error_iff.mp h with htarget | ⟨r₂, -, h⟩
  · simp only [candidateTarget] at htarget
    split at htarget
    · simp at htarget
    split at htarget
    · exact ⟨_, _, _, (Except.error.inj htarget).symm⟩
    split at htarget
    · exact ⟨_, _, _, (Except.error.inj htarget).symm⟩
    · simp at htarget
  rcases bind_eq_error_iff.mp h with hbody | ⟨⟨r₃, flags⟩, -, h⟩
  · simp only [candidateBody] at hbody
    split at hbody
    · exact ⟨_, _, _, (Except.error.inj hbody).symm⟩
    split at hbody
    · exact ⟨_, _, _, (Except.error.inj hbody).symm⟩
    · simp at hbody
  rcases bind_eq_error_iff.mp h with hid | ⟨⟨r₄, id⟩, -, h⟩
  · simp only [candidateIdentifier] at hid
    split at hid
    · exact ⟨_, _, _, (Except.error.inj hid).symm⟩
    split at hid
    · exact ⟨_, _, _, (Except.error.inj hid).symm⟩
    · simp at hid
  rcases bind_eq_error_iff.mp h with hnext | ⟨⟨r₅, next⟩, -, h⟩
  · simp only [candidateNext] at hnext
    split at hnext
    · simp at hnext
    split at hnext
    · exact ⟨_, _, _, (Except.error.inj hnext).symm⟩
    split at hnext
    · exact ⟨_, _, _, (Except.error.inj hnext).symm⟩
    · simp at hnext
  dsimp only at h
  split at h
  · exact ⟨_, _, _, (Except.error.inj h).symm⟩
  · simp at h

theorem validateCandidate_error {c : ChainContext} {prior : ChainState}
    {history : Option (List Bytes)} {bytes : Bytes} {reconstruct : Bool} {r : ChainReport}
    (h : validateCandidate c prior history bytes reconstruct = .error r) : r.Failed := by
  rcases bind_eq_error_iff.mp h with hprepare | ⟨⟨r', b, flags, candidate⟩, -, h⟩
  · exact prepareCandidate_error hprepare
  · dsimp only at h
    split at h
    · exact ⟨_, _, _, (Except.error.inj h).symm⟩
    · simp at h

/-- Validation writes a state exactly when its report accepts. -/
theorem chainValidateCandidate_acceptance_iff (c : ChainContext) (prior : ChainState)
    (bytes : Bytes) :
    (chainValidateCandidate c prior bytes).1.acceptance = .underContext ↔
      ∃ s, (chainValidateCandidate c prior bytes).2 = some s := by
  simp only [chainValidateCandidate]
  rcases hvalid : validateCandidate c prior none bytes false with r | ⟨r, s⟩
  · simp [chainResult, (validateCandidate_error hvalid).acceptance]
  · obtain ⟨-, -, -, -, -, rfl⟩ := validateCandidate_eq_ok_iff.mp hvalid
    simp [chainResult, acceptedReport]

/-- A prepared candidate whose transactions fail is refused with their status. -/
theorem CandidatePrepared.validate_error {c : ChainContext} {prior : ChainState}
    {bytes : Bytes} {reconstruct : Bool} {b : Block} {flags : CandidateFlags}
    {candidate : ChainState} {history : Option (List Bytes)} {status : DataStatus}
    (h : CandidatePrepared c prior bytes reconstruct b flags candidate)
    (herror : applyTransactions (candidateEnv c prior history b flags) b.transactions candidate =
      .error status) :
    validateCandidate c prior history bytes reconstruct =
      .error ({ preparedReport c b with body := failureStage status }.fail .body status) := by
  simp only [validateCandidate, prepareCandidate_iff.mpr ⟨h, rfl⟩, bind, Except.bind]
  rw [h.apply_eq history, herror]

/-- A prepared candidate extends the prior's tip and inherits its components. -/
theorem CandidatePrepared.next_state {c : ChainContext} {prior : ChainState} {bytes : Bytes}
    {reconstruct : Bool} {b : Block} {flags : CandidateFlags} {candidate : ChainState}
    (h : CandidatePrepared c prior bytes reconstruct b flags candidate) :
    ∃ id next, chainBlockId bytes c.hashProvider = .ok id ∧ id ≠ 0 ∧
      CandidateWorked c prior b id next ∧ SameTip next candidate ∧
      ComponentsOf prior candidate := by
  obtain ⟨id, next, hid, hne, hworked, hcomponents⟩ := h.next
  obtain ⟨htip, hinherit⟩ := candidateComponents_eq_some hcomponents
  refine ⟨id, next, hid, hne, hworked, htip, ?_⟩
  simp only [CandidateWorked] at hworked
  split at hworked
  · obtain rfl := hworked
    exact hinherit.of_eq rfl rfl rfl rfl rfl rfl
  · obtain ⟨-, -, work, -, rfl⟩ := hworked
    exact hinherit.of_eq rfl rfl rfl rfl rfl rfl

end StnChain
