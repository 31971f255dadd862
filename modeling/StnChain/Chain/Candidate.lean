import StnChain.Chain.Components

/-!
# Preparing a candidate

Everything `validate_candidate` of `stn_chain.c` does before its transaction
loop: structure, link, target, body, identifier, proof of work and the copies of
the components.  None of it depends on the accepted prefix.
`prepareCandidate_iff` says all that it establishes, so that later modules do not
unfold it.
-/

namespace StnChain

variable [Primitives]

/-! ## Reports -/

/-- `stn_stage_status`. -/
inductive StageStatus
  | notRun | pass | reject | unresolved | error
  deriving DecidableEq, Repr

/-- `stn_acceptance`. -/
inductive Acceptance
  | rejected | unresolved | error | underContext
  deriving DecidableEq, Repr

/-- `stn_chain_reason`. -/
inductive ChainReason
  | none | argument | context | state | blockStructure | network | genesis | height | parent
  | timestamp | body | hash | zeroId | batchLimit | target | pow | work
  deriving DecidableEq, Repr

/-- `stn_chain_report`; an index or a height that is not available is `none`. -/
structure ChainReport where
  blockStructure : StageStatus
  link : StageStatus
  body : StageStatus
  identifier : StageStatus
  pow : StageStatus
  target : StageStatus
  work : StageStatus
  acceptance : Acceptance
  reason : ChainReason
  detail : Option DataStatus
  failingIndex : Option ℕ
  failingHeight : Option UInt64
  deriving DecidableEq, Repr

/-- `initial_report`. -/
def initialReport : ChainReport where
  blockStructure := .notRun
  link := .notRun
  body := .notRun
  identifier := .notRun
  pow := .notRun
  target := .notRun
  work := .notRun
  acceptance := .error
  reason := .none
  detail := none
  failingIndex := none
  failingHeight := none

/-- The acceptance `fail` derives from a status. -/
def failureAcceptance : DataStatus → Acceptance
  | .unresolved => .unresolved
  | .providerError | .argument => .error
  | _ => .rejected

/-- `fail`. -/
def ChainReport.fail (r : ChainReport) (reason : ChainReason) (detail : DataStatus) :
    ChainReport :=
  { r with reason, detail := some detail, acceptance := failureAcceptance detail }

/-- `stage`, of a status that is not a success. -/
def failureStage : DataStatus → StageStatus
  | .unresolved => .unresolved
  | .providerError | .argument => .error
  | _ => .reject

/-! ## Structure, link and target -/

/-- The version every block of a chain has. -/
def requiredVersion (c : ChainContext) : UInt16 :=
  if c.powPolicy.isSome then powBlockVersion else 1

/-- The height an undecodable block is reported with. -/
def structuralHeight (bytes : Bytes) : Option UInt64 :=
  if bytes.length ≥ blockHeaderSize then
    match blockHeaderDecode (bytes.take blockHeaderSize) with
    | .ok h => some h.height
    | .error _ => none
  else none

/-- The context and structure checks. -/
def candidateBlock (c : ChainContext) (bytes : Bytes) : Except ChainReport (ChainReport × Block) :=
  match contextValid c with
  | .error status => .error (initialReport.fail .context status)
  | .ok () =>
      match blockDecode bytes with
      | .error status => .error ({ initialReport with
          blockStructure := failureStage status
          failingIndex := some 0
          failingHeight := structuralHeight bytes }.fail .blockStructure status)
      | .ok b =>
          let r := { initialReport with
            blockStructure := .pass
            failingIndex := some 0
            failingHeight := some b.header.height }
          if b.header.version ≠ requiredVersion c then
            .error ({ r with link := .reject }.fail .context .version)
          else .ok (r, b)

/-- The reason a candidate does not continue the prior state, if there is one. -/
def linkFailure (c : ChainContext) (prior : ChainState) (b : Block) (bytes : Bytes) :
    Option ChainReason :=
  if b.header.networkId ≠ c.networkId then some .network
  else if !prior.hasTip then
    if bytes ≠ c.genesisBytes then some .genesis else none
  else if prior.height = uint64Max ∨ b.header.height ≠ prior.height + 1 then some .height
  else if b.header.previousHash ≠ prior.tipId then some .parent
  else if b.header.timestamp < prior.timestamp then some .timestamp
  else none

/-- The link stage. -/
def candidateLink (c : ChainContext) (prior : ChainState) (b : Block) (bytes : Bytes)
    (r : ChainReport) : Except ChainReport ChainReport :=
  match priorValid c prior with
  | .error status => .error ({ r with link := failureStage status }.fail .state status)
  | .ok () =>
      match linkFailure c prior b bytes with
      | some reason => .error ({ r with link := .reject }.fail reason .content)
      | none => .ok { r with link := .pass }

/-- The target stage. -/
def candidateTarget (c : ChainContext) (prior : ChainState) (b : Block) (r : ChainReport) :
    Except ChainReport ChainReport :=
  if c.powPolicy.isNone then .ok r
  else
    match chainRequiredTarget c prior with
    | .error status => .error ({ r with target := failureStage status }.fail .target status)
    | .ok required =>
        if b.header.reservedTarget ≠ required then
          .error ({ r with target := .reject }.fail .target .target)
        else .ok { r with target := .pass }

/-! ## Body -/

/-- The flag a transaction sets, or the reason it is refused. -/
def scanTransaction (c : ChainContext) (prior : ChainState) (height : UInt64) (bytes : Bytes)
    (flags : CandidateFlags) : Except ChainReason CandidateFlags :=
  match transactionDecode bytes with
  | .error _ => .error .body
  | .ok tx =>
      match tx.type with
      | .contractAction => .ok { flags with contracts := true }
      | .shareEvidence => .ok { flags with shares := true }
      | .blockCompensationEvidence => .ok { flags with blockCompensation := true }
      | .compensationDestination => .ok { flags with compensation := true }
      | .issuance => .ok { flags with issuance := true }
      | .transfer => .ok { flags with transfer := true }
      | .authorityGrant | .authorityRevoke | .identityRotate =>
          .ok { flags with lifecycle := true }
      | .publication =>
          match recordDecode tx.record with
          | .error _ => .error .body
          | .ok record =>
              if record.networkId ≠ c.networkId then .error .network
              else if prior.publicationActivationHeight ≤ height then
                .ok { flags with lifecycle := true }
              else .ok flags

/-- The first loop over the body. -/
def scanBody (c : ChainContext) (prior : ChainState) (height : UInt64) :
    List Bytes → CandidateFlags → Except ChainReason CandidateFlags
  | [], flags => .ok flags
  | bytes :: rest, flags =>
      match scanTransaction c prior height bytes flags with
      | .error reason => .error reason
      | .ok flags => scanBody c prior height rest flags

/-- The integrity check and the first loop over the body. -/
def candidateBody (c : ChainContext) (prior : ChainState) (b : Block) (bytes : Bytes)
    (r : ChainReport) : Except ChainReport (ChainReport × CandidateFlags) :=
  match blockCheckIntegrity bytes c.hashProvider with
  | .error status => .error ({ r with body := failureStage status }.fail .body status)
  | .ok () =>
      match scanBody c prior b.header.height b.transactions {} with
      | .error reason => .error ({ r with body := .reject }.fail reason .content)
      | .ok flags => .ok ({ r with body := .pass }, flags)

/-! ## Identifier, proof of work and the next state -/

/-- The identifier stage. -/
def candidateIdentifier (c : ChainContext) (bytes : Bytes) (r : ChainReport) :
    Except ChainReport (ChainReport × Octets 32) :=
  match chainBlockId bytes c.hashProvider with
  | .error status => .error ({ r with identifier := failureStage status }.fail .hash status)
  | .ok id =>
      if id = 0 then .error ({ r with identifier := .reject }.fail .zeroId .content)
      else .ok ({ r with identifier := .pass }, id)

/-- The tip, height and timestamp of the next state. -/
def advanceTip (prior : ChainState) (b : Block) (id : Octets 32) : ChainState :=
  { prior with
    hasTip := true
    height := b.header.height
    timestamp := b.header.timestamp
    tipId := id
    genesisId := if prior.hasTip then prior.genesisId else id }

/-- The calculation fields a block leaves in the target history. -/
def historyEntry (h : BlockHeader) : BlockHeader where
  version := powBlockVersion
  flags := 0
  networkId := 0
  previousHash := 0
  height := h.height
  timestamp := h.timestamp
  transactionCommitment := 0
  reservedTarget := h.reservedTarget
  reservedWorkNonce := 0
  transactionCount := 0
  bodyLength := 0

/-- The target, cumulative work and window of the next state. -/
def advanceWork (next : ChainState) (h : BlockHeader) (cumulativeWork : Work) : ChainState :=
  { next with
    cumulativeWork
    currentTarget := h.reservedTarget
    targetHistory :=
      (if h.height % 60 = 0 then [] else next.targetHistory) ++ [historyEntry h] }

/-- The work sum of `validate_candidate`. -/
def candidateWork (prior : ChainState) (b : Block) : Except DataStatus Work :=
  match targetWork b.header.reservedTarget with
  | .error status => .error status
  | .ok unit => workAdd prior.cumulativeWork unit

/-- The proof-of-work and work stages. -/
def candidateNext (c : ChainContext) (prior : ChainState) (b : Block) (id : Octets 32)
    (r : ChainReport) : Except ChainReport (ChainReport × ChainState) :=
  let next := advanceTip prior b id
  if c.powPolicy.isNone then .ok (r, next)
  else
    match powCompare id b.header.reservedTarget with
    | .error status => .error ({ r with pow := failureStage status }.fail .pow status)
    | .ok () =>
        match candidateWork prior b with
        | .error status =>
            .error ({ r with pow := .pass, work := failureStage status }.fail .work status)
        | .ok work => .ok ({ r with pow := .pass, work := .pass }, advanceWork next b.header work)

/-! ## Preparation -/

/-- Everything `validate_candidate` does before its transaction loop. -/
def prepareCandidate (c : ChainContext) (prior : ChainState) (bytes : Bytes)
    (reconstruct : Bool) :
    Except ChainReport (ChainReport × Block × CandidateFlags × ChainState) := do
  let (r, b) ← candidateBlock c bytes
  let r ← candidateLink c prior b bytes r
  let r ← candidateTarget c prior b r
  let (r, flags) ← candidateBody c prior b bytes r
  let (r, id) ← candidateIdentifier c bytes r
  let (r, next) ← candidateNext c prior b id r
  match candidateComponents flags b.header.transactionCount.toNat reconstruct next with
  | none => .error ({ r with body := .error }.fail .body .providerError)
  | some candidate => .ok (r, b, flags, candidate)

/-! ## What preparation establishes -/

/-- The proof-of-work half of preparation: target, proof and next state. -/
def CandidateWorked (c : ChainContext) (prior : ChainState) (b : Block) (id : Octets 32)
    (next : ChainState) : Prop :=
  match c.powPolicy with
  | none => next = advanceTip prior b id
  | some _ => chainRequiredTarget c prior = .ok b.header.reservedTarget ∧
      powCompare id b.header.reservedTarget = .ok () ∧
      ∃ work, candidateWork prior b = .ok work ∧
        next = advanceWork (advanceTip prior b id) b.header work

/-- A prepared candidate: every check before the transaction loop passed. -/
structure CandidatePrepared (c : ChainContext) (prior : ChainState) (bytes : Bytes)
    (reconstruct : Bool) (b : Block) (flags : CandidateFlags) (candidate : ChainState) :
    Prop where
  context : contextValid c = .ok ()
  decode : blockDecode bytes = .ok b
  version : b.header.version = requiredVersion c
  consistent : priorValid c prior = .ok ()
  link : linkFailure c prior b bytes = none
  integrity : blockCheckIntegrity bytes c.hashProvider = .ok ()
  scan : scanBody c prior b.header.height b.transactions {} = .ok flags
  next : ∃ id next, chainBlockId bytes c.hashProvider = .ok id ∧ id ≠ 0 ∧
    CandidateWorked c prior b id next ∧
    candidateComponents flags b.header.transactionCount.toNat reconstruct next = some candidate

/-- The report of a prepared candidate. -/
def preparedReport (c : ChainContext) (b : Block) : ChainReport :=
  let worked := if c.powPolicy.isNone then .notRun else .pass
  { initialReport with
    blockStructure := .pass
    link := .pass
    body := .pass
    identifier := .pass
    pow := worked
    target := worked
    work := worked
    failingIndex := some 0
    failingHeight := some b.header.height }

theorem candidateBlock_iff {c : ChainContext} {bytes : Bytes} {r : ChainReport} {b : Block} :
    candidateBlock c bytes = .ok (r, b) ↔
      contextValid c = .ok () ∧ blockDecode bytes = .ok b ∧
        b.header.version = requiredVersion c ∧
        r = { initialReport with
          blockStructure := .pass
          failingIndex := some 0
          failingHeight := some b.header.height } := by
  simp only [candidateBlock]
  split
  · next h => simp [h]
  next hcontext =>
  split
  · next h => simp [h]
  next b' hdecode =>
  split
  · next hversion =>
      simp only [hcontext, hdecode, reduceCtorEq, Except.ok.injEq, true_and, false_iff]
      rintro ⟨rfl, hversion', -⟩
      exact hversion hversion'
  · next hversion =>
      simp only [hcontext, hdecode, Except.ok.injEq, Prod.mk.injEq, true_and]
      constructor
      · rintro ⟨rfl, rfl⟩
        exact ⟨rfl, not_not.mp hversion, rfl⟩
      · rintro ⟨rfl, -, rfl⟩
        exact ⟨rfl, rfl⟩

theorem candidateLink_iff {c : ChainContext} {prior : ChainState} {b : Block} {bytes : Bytes}
    {r r' : ChainReport} :
    candidateLink c prior b bytes r = .ok r' ↔
      priorValid c prior = .ok () ∧ linkFailure c prior b bytes = none ∧
        r' = { r with link := .pass } := by
  simp only [candidateLink]
  split
  · next h => simp [h]
  next hprior =>
  split
  · next h => simp [h]
  · next h => simp [hprior, h, eq_comm]

theorem candidateBody_iff {c : ChainContext} {prior : ChainState} {b : Block} {bytes : Bytes}
    {r r' : ChainReport} {flags : CandidateFlags} :
    candidateBody c prior b bytes r = .ok (r', flags) ↔
      blockCheckIntegrity bytes c.hashProvider = .ok () ∧
        scanBody c prior b.header.height b.transactions {} = .ok flags ∧
        r' = { r with body := .pass } := by
  simp only [candidateBody]
  split
  · next h => simp [h]
  next hintegrity =>
  split
  · next h => simp [h]
  · next h => simp [hintegrity, h, eq_comm, and_comm]

theorem candidateIdentifier_iff {c : ChainContext} {bytes : Bytes} {r r' : ChainReport}
    {id : Octets 32} :
    candidateIdentifier c bytes r = .ok (r', id) ↔
      chainBlockId bytes c.hashProvider = .ok id ∧ id ≠ 0 ∧
        r' = { r with identifier := .pass } := by
  simp only [candidateIdentifier]
  split
  · next h => simp [h]
  next id' hid =>
  split
  · next hzero =>
      simp only [hid, reduceCtorEq, Except.ok.injEq, false_iff]
      rintro ⟨rfl, hne, -⟩
      exact hne hzero
  · next hne =>
      simp only [hid, Except.ok.injEq, Prod.mk.injEq]
      constructor
      · rintro ⟨rfl, rfl⟩
        exact ⟨rfl, hne, rfl⟩
      · rintro ⟨rfl, -, rfl⟩
        exact ⟨rfl, rfl⟩

theorem candidateTarget_iff {c : ChainContext} {prior : ChainState} {b : Block}
    {r r' : ChainReport} :
    candidateTarget c prior b r = .ok r' ↔
      (c.powPolicy = none ∧ r' = r) ∨
        (c.powPolicy.isSome ∧ chainRequiredTarget c prior = .ok b.header.reservedTarget ∧
          r' = { r with target := .pass }) := by
  cases hpolicy : c.powPolicy with
  | none => simp [candidateTarget, hpolicy, eq_comm]
  | some policy =>
      simp only [candidateTarget, hpolicy]
      split
      · next h => simp at h
      split
      · next h => simp [h]
      next required hrequired =>
      split
      · next hne =>
          simp only [hrequired, reduceCtorEq, Except.ok.injEq, false_iff]
          rintro (⟨h, -⟩ | ⟨-, h, -⟩)
          · simp at h
          · exact hne h.symm
      · next heq => simp [hrequired, not_not.mp heq, eq_comm]

omit [Primitives] in
theorem candidateNext_iff {c : ChainContext} {prior : ChainState} {b : Block}
    {id : Octets 32} {r r' : ChainReport} {next : ChainState} :
    candidateNext c prior b id r = .ok (r', next) ↔
      (c.powPolicy = none ∧ next = advanceTip prior b id ∧ r' = r) ∨
        (c.powPolicy.isSome ∧ powCompare id b.header.reservedTarget = .ok () ∧
          (∃ work, candidateWork prior b = .ok work ∧
            next = advanceWork (advanceTip prior b id) b.header work) ∧
          r' = { r with pow := .pass, work := .pass }) := by
  cases hpolicy : c.powPolicy with
  | none => simp [candidateNext, hpolicy, eq_comm, and_comm]
  | some policy =>
      simp only [candidateNext, hpolicy]
      split
      · next h => simp at h
      split
      · next h => simp [h]
      next hcompare =>
      split
      · next h => simp [hcompare, h]
      · next work h => simp [hcompare, h, eq_comm, and_comm]

/-- Preparation succeeds exactly on prepared candidates, with one report. -/
theorem prepareCandidate_iff {c : ChainContext} {prior : ChainState} {bytes : Bytes}
    {reconstruct : Bool} {r : ChainReport} {b : Block} {flags : CandidateFlags}
    {candidate : ChainState} :
    prepareCandidate c prior bytes reconstruct = .ok (r, b, flags, candidate) ↔
      CandidatePrepared c prior bytes reconstruct b flags candidate ∧
        r = preparedReport c b := by
  constructor
  · intro h
    obtain ⟨⟨r₀, b'⟩, hblock, h⟩ := bind_eq_ok_iff.mp h
    obtain ⟨r₁, hlink, h⟩ := bind_eq_ok_iff.mp h
    obtain ⟨r₂, htarget, h⟩ := bind_eq_ok_iff.mp h
    obtain ⟨⟨r₃, flags'⟩, hbody, h⟩ := bind_eq_ok_iff.mp h
    obtain ⟨⟨r₄, id⟩, hid, h⟩ := bind_eq_ok_iff.mp h
    obtain ⟨⟨r₅, next⟩, hnext, h⟩ := bind_eq_ok_iff.mp h
    dsimp only at hlink htarget hbody hid hnext h
    split at h
    · simp at h
    next hcomponents =>
    obtain ⟨rfl, rfl, rfl, rfl⟩ : r₅ = r ∧ b' = b ∧ flags' = flags ∧ _ = candidate := by
      simpa using h
    obtain ⟨hcontext, hdecode, hversion, rfl⟩ := candidateBlock_iff.mp hblock
    obtain ⟨hprior, hlinked, rfl⟩ := candidateLink_iff.mp hlink
    obtain ⟨hintegrity, hscan, rfl⟩ := candidateBody_iff.mp hbody
    obtain ⟨hblockId, hne, rfl⟩ := candidateIdentifier_iff.mp hid
    rcases candidateTarget_iff.mp htarget with ⟨hpolicy, rfl⟩ | ⟨hpolicy, hrequired, rfl⟩
    · rcases candidateNext_iff.mp hnext with ⟨-, rfl, rfl⟩ | ⟨hsome, -⟩
      · refine ⟨⟨hcontext, hdecode, hversion, hprior, hlinked, hintegrity, hscan,
          id, _, hblockId, hne, ?_, hcomponents⟩, ?_⟩
        · simp [CandidateWorked, hpolicy]
        · simp [preparedReport, initialReport, hpolicy]
      · simp [hpolicy] at hsome
    · rcases candidateNext_iff.mp hnext with ⟨hnone, -⟩ | ⟨-, hcompare, hwork, rfl⟩
      · simp [hnone] at hpolicy
      · obtain ⟨policy, hpolicy⟩ := Option.isSome_iff_exists.mp hpolicy
        refine ⟨⟨hcontext, hdecode, hversion, hprior, hlinked, hintegrity, hscan,
          id, next, hblockId, hne, ?_, hcomponents⟩, ?_⟩
        · simp only [CandidateWorked, hpolicy]
          exact ⟨hrequired, hcompare, hwork⟩
        · simp [preparedReport, initialReport, hpolicy]
  · rintro ⟨⟨hcontext, hdecode, hversion, hprior, hlinked, hintegrity, hscan,
      id, next, hblockId, hne, hworked, hcomponents⟩, rfl⟩
    have hblock := candidateBlock_iff.mpr ⟨hcontext, hdecode, hversion, rfl⟩
    refine bind_eq_ok_iff.mpr ⟨_, hblock, ?_⟩
    refine bind_eq_ok_iff.mpr ⟨_, candidateLink_iff.mpr ⟨hprior, hlinked, rfl⟩, ?_⟩
    cases hpolicy : c.powPolicy with
    | none =>
        simp only [CandidateWorked, hpolicy] at hworked
        refine bind_eq_ok_iff.mpr ⟨_, candidateTarget_iff.mpr (.inl ⟨hpolicy, rfl⟩), ?_⟩
        refine bind_eq_ok_iff.mpr ⟨_, candidateBody_iff.mpr ⟨hintegrity, hscan, rfl⟩, ?_⟩
        refine bind_eq_ok_iff.mpr ⟨_, candidateIdentifier_iff.mpr ⟨hblockId, hne, rfl⟩, ?_⟩
        refine bind_eq_ok_iff.mpr
          ⟨_, candidateNext_iff.mpr (.inl ⟨hpolicy, hworked, rfl⟩), ?_⟩
        simp [hcomponents, preparedReport, initialReport, hpolicy]
    | some policy =>
        simp only [CandidateWorked, hpolicy] at hworked
        obtain ⟨hrequired, hcompare, hwork⟩ := hworked
        have hsome : c.powPolicy.isSome := by simp [hpolicy]
        refine bind_eq_ok_iff.mpr
          ⟨_, candidateTarget_iff.mpr (.inr ⟨hsome, hrequired, rfl⟩), ?_⟩
        refine bind_eq_ok_iff.mpr ⟨_, candidateBody_iff.mpr ⟨hintegrity, hscan, rfl⟩, ?_⟩
        refine bind_eq_ok_iff.mpr ⟨_, candidateIdentifier_iff.mpr ⟨hblockId, hne, rfl⟩, ?_⟩
        refine bind_eq_ok_iff.mpr
          ⟨_, candidateNext_iff.mpr (.inr ⟨hsome, hcompare, hwork, rfl⟩), ?_⟩
        simp [hcomponents, preparedReport, initialReport, hpolicy]

theorem CandidatePrepared.unique {c : ChainContext} {prior : ChainState} {bytes : Bytes}
    {reconstruct : Bool} {b b' : Block} {flags flags' : CandidateFlags}
    {candidate candidate' : ChainState}
    (h : CandidatePrepared c prior bytes reconstruct b flags candidate)
    (h' : CandidatePrepared c prior bytes reconstruct b' flags' candidate') :
    b = b' ∧ flags = flags' ∧ candidate = candidate' := by
  have heq := (prepareCandidate_iff.mpr ⟨h, rfl⟩).symm.trans (prepareCandidate_iff.mpr ⟨h', rfl⟩)
  simp only [Except.ok.injEq, Prod.mk.injEq] at heq
  exact heq.2

/-- A transaction that leaves every flag unset is a publication below the
activation height. -/
theorem scanTransaction_unset {c : ChainContext} {prior : ChainState} {height : UInt64}
    {bytes : Bytes} {flags flags' : CandidateFlags}
    (h : scanTransaction c prior height bytes flags = .ok flags') (hunset : flags'.any = false) :
    flags.any = false ∧
      ∃ tx, transactionDecode bytes = .ok tx ∧ tx.type = .publication := by
  simp only [scanTransaction] at h
  split at h
  · simp at h
  next tx hdecode =>
  split at h
  all_goals try (obtain rfl := Except.ok.inj h; simp [CandidateFlags.any] at hunset)
  next htype =>
  split at h
  · simp at h
  split at h
  · simp at h
  split at h
  · obtain rfl := Except.ok.inj h
    simp [CandidateFlags.any] at hunset
  · obtain rfl := Except.ok.inj h
    exact ⟨hunset, tx, hdecode, htype⟩

theorem scanBody_unset {c : ChainContext} {prior : ChainState} {height : UInt64}
    {ts : List Bytes} {flags flags' : CandidateFlags}
    (h : scanBody c prior height ts flags = .ok flags') (hunset : flags'.any = false) :
    flags.any = false ∧
      ∀ t ∈ ts, ∃ tx, transactionDecode t = .ok tx ∧ tx.type = .publication := by
  induction ts generalizing flags with
  | nil =>
      obtain rfl := Except.ok.inj h
      exact ⟨hunset, by simp⟩
  | cons t ts ih =>
      simp only [scanBody] at h
      split at h
      · simp at h
      next hscan =>
      obtain ⟨hmid, hrest⟩ := ih h
      obtain ⟨hflags, hhead⟩ := scanTransaction_unset hscan hmid
      exact ⟨hflags, List.forall_mem_cons.mpr ⟨hhead, hrest⟩⟩

end StnChain
