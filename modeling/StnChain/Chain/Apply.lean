import StnChain.Chain.Components
import StnChain.Chain.ContractAction

/-!
# Applying the transactions of a candidate block

The transaction loop of `validate_candidate` (`stn_chain.c`), branch by branch.
A candidate is checked with its accepted prefix, or with consensus state alone;
the branches for block compensation, issuance and share evidence depend on which.
-/

namespace StnChain

variable [Primitives]

/-- What the loop of `validate_candidate` reads besides the candidate's components. -/
structure CandidateEnv where
  context : ChainContext
  prior : ChainState
  /-- The accepted prefix; `none` when only consensus state is at hand. -/
  history : Option (List Bytes)
  header : BlockHeader
  hasLifecycle : Bool

/-! ## Block compensation -/

/-- `stn_block_compensation_candidate_apply`. -/
def blockCompensationCandidateApply (evidenceTx issuanceTx : Transaction)
    (replay : BlockCompensationReplay) (compensation : CompensationState)
    (economy : EconomicState) : Except DataStatus (BlockCompensationReplay × EconomicState) :=
  if evidenceTx.version ≠ 1 ∨ evidenceTx.type ≠ .blockCompensationEvidence ∨
      evidenceTx.record.length ≠ blockCompensationCanonicalSize then .error .type
  else if issuanceTx.version ≠ 1 ∨ issuanceTx.type ≠ .issuance ∨
      issuanceTx.record.length ≠ issuanceCanonicalSize then .error .type
  else do
    let evidence ← blockCompensationDecode evidenceTx.record
    let issuance ← issuanceDecode issuanceTx.record
    if issuance.reason ≠ issuanceReasonBlock then .error .type
    else blockCompensationAccept replay evidence issuance compensation economy

/-- The search for an accepted block identifier in the accepted prefix. -/
def historyContains (id : Octets 32) (provider : HashProvider) :
    List Bytes → Except DataStatus Bool
  | [] => .ok false
  | bytes :: rest =>
      match chainBlockId bytes provider with
      | .error _ => .error .providerError
      | .ok accepted => if accepted = id then .ok true else historyContains id provider rest

/-- Whether a block identifier is accepted; with consensus state alone only the
tip can be recognized. -/
def blockAccepted (env : CandidateEnv) (id : Octets 32) : Except DataStatus Unit :=
  match env.history with
  | some blocks =>
      match historyContains id env.context.hashProvider blocks with
      | .error status => .error status
      | .ok found => if found then .ok () else .error .content
  | none => if env.prior.hasTip ∧ env.prior.tipId = id then .ok () else .error .unresolved

/-- The block-compensation branch, over the two adjacent transactions it consumes. -/
def applyBlockCompensation (env : CandidateEnv) (evidenceTx : Transaction) (next : Bytes)
    (replay : BlockCompensationReplay) (compensation : CompensationState)
    (economy : EconomicState) : Except DataStatus (BlockCompensationReplay × EconomicState) :=
  match blockCompensationDecode evidenceTx.record with
  | .error _ => .error .content
  | .ok evidence =>
      match blockAccepted env evidence.blockId with
      | .error status => .error status
      | .ok () =>
          match transactionDecode next with
          | .error _ => .error .content
          | .ok issuanceTx =>
              if issuanceTx.type ≠ .issuance then .error .content
              else blockCompensationCandidateApply evidenceTx issuanceTx replay compensation
                economy

/-! ## Issuance for shares -/

/-- A transaction is share evidence an issuance record is bound to. -/
def bindsShare (issuance : IssuanceRecord) (compensation : CompensationState)
    (bytes : Bytes) : Bool :=
  match transactionDecode bytes with
  | .error _ => false
  | .ok tx =>
      tx.type = .shareEvidence &&
        match shareDecode tx.record with
        | .error _ => false
        | .ok share => issuanceBindShare issuance share compensation = .ok ()

/-- The search for bound share evidence in the accepted prefix. -/
def historyBindsShare (issuance : IssuanceRecord) (compensation : CompensationState) :
    List Bytes → Except DataStatus Bool
  | [] => .ok false
  | bytes :: rest =>
      match blockDecode bytes with
      | .error _ => .error .content
      | .ok b =>
          if b.transactions.any (bindsShare issuance compensation) then .ok true
          else historyBindsShare issuance compensation rest

/-- The issuance branch. -/
def applyIssuance (env : CandidateEnv) (record : Bytes) (compensation : CompensationState)
    (economy : EconomicState) : Except DataStatus EconomicState :=
  match issuanceDecode record with
  | .error _ => .error .content
  | .ok issuance =>
      if issuance.reason ≠ issuanceReasonShare then .error .content
      else
        match compensationStateLookup compensation issuance.destination.miningIdentity with
        | .error _ => .error .content
        | .ok mapped =>
            if mapped.identifier ≠ issuance.destination.wallet.identifier then .error .content
            else
              match env.history with
              | none => .error .unresolved
              | some blocks =>
                  match historyBindsShare issuance compensation blocks with
                  | .error status => .error status
                  | .ok false => .error .content
                  | .ok true => economicStateApply economy issuance

/-! ## Transfers and destinations -/

/-- The transfer branch. -/
def applyTransfer (record : Bytes) (economy : ChainEconomy) : Except DataStatus ChainEconomy :=
  match transferEnvelopeDecode record with
  | .error _ => .error .content
  | .ok envelope =>
      match transferEnvelopeAccept economy.state economy.replay envelope with
      | .error status => .error status
      | .ok (state, replay) => .ok ⟨state, replay⟩

/-- The compensation-destination branch. -/
def applyDestination (record : Bytes) (compensation : CompensationState) :
    Except DataStatus CompensationState :=
  match compensationDestinationDecode record with
  | .error _ => .error .content
  | .ok destination => compensationStateApply compensation destination

/-! ## Share evidence -/

/-- The checks of the share branch that need no accepted prefix. -/
def shareAdmissible (env : CandidateEnv) (share : ShareEvidence) (work : BlockHeader) : Bool :=
  work.version = powBlockVersion && work.reservedWorkNonce = 0 &&
    work.transactionCommitment = share.bodyCommitment &&
    work.networkId = env.context.networkId && env.prior.hasTip &&
    env.prior.height ≠ uint64Max && work.height < env.header.height && work.height ≠ 0 &&
    (shareVerifyEvidence share env.context.hashProvider).toBool

/-- The check of a work header's parent: the accepted block below it, or, with
consensus state alone, the tip. -/
def shareParent (env : CandidateEnv) (work : BlockHeader) : Except DataStatus Unit :=
  match env.history with
  | some blocks =>
      match blocks[(work.height - 1).toNat]? with
      | none => .error .content
      | some parent =>
          match chainBlockId parent env.context.hashProvider with
          | .error _ => .error .content
          | .ok id => if id = work.previousHash then .ok () else .error .content
  | none =>
      if work.height + 1 ≠ env.header.height ∨ work.previousHash ≠ env.prior.tipId then
        .error .unresolved
      else .ok ()

/-- The share-evidence branch. -/
def applyShare (env : CandidateEnv) (record : Bytes) (shares : ShareReplayState) :
    Except DataStatus ShareReplayState :=
  match shareDecode record with
  | .error _ => .error .content
  | .ok share =>
      match blockHeaderDecode (octetBytes share.templateHeader) with
      | .error _ => .error .content
      | .ok work =>
          if !shareAdmissible env share work then .error .content
          else
            match shareParent env work with
            | .error status => .error status
            | .ok () =>
                match shareReplayConsume shares share with
                | (.fresh, shares) => .ok shares
                | (.capacity, _) => .error .capacity
                | _ => .error .duplicate

/-! ## Lifecycle transactions -/

/-- The status a lifecycle failure becomes. -/
def lifecycleStatus : LifecycleResult × LifecycleState → Except DataStatus LifecycleState
  | (.ok, s) => .ok s
  | (.capacity, _) | (.provider, _) => .error .providerError
  | _ => .error .content

/-- The end of the loop's body: publications, grants, revocations and rotations. -/
def applyLifecycle (env : CandidateEnv) (tx : Transaction) (lifecycle : LifecycleState) :
    Except DataStatus LifecycleState :=
  if !env.hasLifecycle then .ok lifecycle
  else if tx.type = .publication ∧
      env.header.height < env.prior.publicationActivationHeight then .ok lifecycle
  else do
    if tx.type = .publication then
      let _ ← lifecycleStatus
        (lifecycleCheckPublication lifecycle tx.record env.context.hashProvider, lifecycle)
    lifecycleStatus (lifecycleApplyTransaction lifecycle tx
      env.context.genesisAuthorityRoots env.context.hashProvider)

/-! ## The loop -/

/-- One round of the loop, for every transaction but block-compensation evidence. -/
def applyTransaction (env : CandidateEnv) (tx : Transaction) (s : ChainState) :
    Except DataStatus ChainState :=
  match tx.type with
  | .blockCompensationEvidence => .error .content
  | .issuance => do
      let state ← applyIssuance env tx.record s.compensation s.economy.state
      pure { s with economy := { s.economy with state } }
  | .transfer => do
      let economy ← applyTransfer tx.record s.economy
      pure { s with economy }
  | .compensationDestination => do
      let compensation ← applyDestination tx.record s.compensation
      pure { s with compensation }
  | .contractAction => do
      let contracts ← contractApplyTransaction s.contracts s.lifecycle tx
        env.context.hashProvider
      pure { s with contracts }
  | .shareEvidence => do
      let shares ← applyShare env tx.record s.shares
      pure { s with shares }
  | .publication | .authorityGrant | .authorityRevoke | .identityRotate => do
      let lifecycle ← applyLifecycle env tx s.lifecycle
      pure { s with lifecycle }

/-- A round that consumes block-compensation evidence and the issuance after it. -/
def applyPair (env : CandidateEnv) (evidenceTx : Transaction) (next : Bytes) (s : ChainState) :
    Except DataStatus ChainState := do
  let (blockCompensation, state) ← applyBlockCompensation env evidenceTx next
    s.blockCompensation s.compensation s.economy.state
  pure { s with blockCompensation, economy := { s.economy with state } }

/-- The loop of `validate_candidate` over the transactions of the body. -/
def applyTransactions (env : CandidateEnv) : List Bytes → ChainState → Except DataStatus ChainState
  | [], s => .ok s
  | [bytes], s =>
      match transactionDecode bytes with
      | .error _ => .error .content
      | .ok tx => applyTransaction env tx s
  | bytes :: next :: rest, s =>
      match transactionDecode bytes with
      | .error _ => .error .content
      | .ok tx =>
          if tx.type = .blockCompensationEvidence then
            match applyPair env tx next s with
            | .error status => .error status
            | .ok s => applyTransactions env rest s
          else
            match applyTransaction env tx s with
            | .error status => .error status
            | .ok s => applyTransactions env (next :: rest) s

/-! ## What one round establishes -/

theorem applyIssuance_eq_ok {env : CandidateEnv} {record : Bytes}
    {compensation : CompensationState} {economy economy' : EconomicState}
    (h : applyIssuance env record compensation economy = .ok economy') :
    ∃ issuance mapped blocks, issuanceDecode record = .ok issuance ∧
      issuance.reason = issuanceReasonShare ∧
      compensationStateLookup compensation issuance.destination.miningIdentity = .ok mapped ∧
      mapped.identifier = issuance.destination.wallet.identifier ∧
      env.history = some blocks ∧
      historyBindsShare issuance compensation blocks = .ok true ∧
      economicStateApply economy issuance = .ok economy' := by
  simp only [applyIssuance] at h
  split at h
  · simp at h
  next issuance hdecode =>
  split at h
  · simp at h
  next hreason =>
  split at h
  · simp at h
  next mapped hlookup =>
  split at h
  · simp at h
  next hwallet =>
  split at h
  · simp at h
  next blocks hhistory =>
  split at h
  · simp at h
  · simp at h
  next hbinds =>
  exact ⟨issuance, mapped, blocks, hdecode, not_not.mp hreason, hlookup, not_not.mp hwallet,
    hhistory, hbinds, h⟩

theorem applyTransfer_eq_ok {record : Bytes} {economy economy' : ChainEconomy}
    (h : applyTransfer record economy = .ok economy') :
    ∃ envelope, transferEnvelopeDecode record = .ok envelope ∧
      transferEnvelopeAccept economy.state economy.replay envelope =
        .ok (economy'.state, economy'.replay) := by
  simp only [applyTransfer] at h
  split at h
  · simp at h
  next envelope hdecode =>
  split at h
  · simp at h
  next haccept =>
  obtain rfl := Except.ok.inj h
  exact ⟨envelope, hdecode, haccept⟩

omit [Primitives] in
/-- An admissible share works below the candidate, above genesis, and is verified. -/
theorem shareAdmissible_spec {env : CandidateEnv} {share : ShareEvidence} {work : BlockHeader}
    (h : shareAdmissible env share work = true) :
    work.height < env.header.height ∧ work.height ≠ 0 ∧
      ∃ proof, shareVerifyEvidence share env.context.hashProvider = .ok proof := by
  obtain ⟨h, hverified⟩ := Bool.and_eq_true_iff.mp h
  obtain ⟨h, hpositive⟩ := Bool.and_eq_true_iff.mp h
  obtain ⟨-, hbelow⟩ := Bool.and_eq_true_iff.mp h
  refine ⟨of_decide_eq_true hbelow, by simpa using hpositive, ?_⟩
  cases hverify : shareVerifyEvidence share env.context.hashProvider with
  | ok proof => exact ⟨proof, rfl⟩
  | error status => simp [hverify, Except.toBool] at hverified

theorem applyShare_eq_ok {env : CandidateEnv} {record : Bytes} {shares shares' : ShareReplayState}
    (h : applyShare env record shares = .ok shares') :
    ∃ share work, shareDecode record = .ok share ∧
      blockHeaderDecode (octetBytes share.templateHeader) = .ok work ∧
      shareAdmissible env share work = true ∧ shareParent env work = .ok () ∧
      shareReplayConsume shares share = (.fresh, shares') := by
  simp only [applyShare] at h
  split at h
  · simp at h
  next share hdecode =>
  split at h
  · simp at h
  next work hwork =>
  split at h
  · simp at h
  next hadmissible =>
  split at h
  · simp at h
  next hparent =>
  split at h
  · next hconsume =>
      obtain rfl := Except.ok.inj h
      exact ⟨share, work, hdecode, hwork, by simpa using hadmissible, hparent, hconsume⟩
  · simp at h
  · simp at h

omit [Primitives] in
theorem lifecycleStatus_eq_ok {p : LifecycleResult × LifecycleState} {s : LifecycleState} :
    lifecycleStatus p = .ok s ↔ p = (.ok, s) := by
  rcases p with ⟨_ | _, t⟩ <;> simp [lifecycleStatus]

/-- A lifecycle round passes over its transaction or applies it. -/
theorem applyLifecycle_eq_ok {env : CandidateEnv} {tx : Transaction}
    {lifecycle lifecycle' : LifecycleState}
    (h : applyLifecycle env tx lifecycle = .ok lifecycle') :
    (lifecycle' = lifecycle ∧ (env.hasLifecycle = false ∨
      (tx.type = .publication ∧ env.header.height < env.prior.publicationActivationHeight))) ∨
    (env.hasLifecycle = true ∧
      ¬(tx.type = .publication ∧ env.header.height < env.prior.publicationActivationHeight) ∧
      lifecycleApplyTransaction lifecycle tx env.context.genesisAuthorityRoots
        env.context.hashProvider = (.ok, lifecycle')) := by
  simp only [applyLifecycle] at h
  split at h
  · next hnone => exact .inl ⟨(Except.ok.inj h).symm, .inl (by simpa using hnone)⟩
  next hsome =>
  split at h
  · next hbelow => exact .inl ⟨(Except.ok.inj h).symm, .inr hbelow⟩
  next habove =>
  refine .inr ⟨by simpa using hsome, habove, ?_⟩
  split at h
  · obtain ⟨_, -, h⟩ := bind_eq_ok_iff.mp h
    exact lifecycleStatus_eq_ok.mp h
  · exact lifecycleStatus_eq_ok.mp h

/-- What a pair round establishes and changes. -/
theorem applyPair_eq_ok {env : CandidateEnv} {tx : Transaction} {next : Bytes}
    {s s' : ChainState} (h : applyPair env tx next s = .ok s') :
    ∃ evidence tx' issuance blockCompensation state,
      blockCompensationDecode tx.record = .ok evidence ∧
      blockAccepted env evidence.blockId = .ok () ∧
      transactionDecode next = .ok tx' ∧ tx'.type = .issuance ∧
      issuanceDecode tx'.record = .ok issuance ∧ issuance.reason = issuanceReasonBlock ∧
      issuanceBindBlock issuance evidence s.compensation = .ok () ∧
      blockCompensationReplayConsumeEvidence s.blockCompensation evidence =
        .ok blockCompensation ∧
      economicStateApply s.economy.state issuance = .ok state ∧
      s' = { s with blockCompensation, economy := { s.economy with state } } := by
  obtain ⟨⟨blockCompensation, state⟩, hpair, h⟩ := bind_eq_ok_iff.mp h
  obtain rfl := Except.ok.inj h
  simp only [applyBlockCompensation] at hpair
  split at hpair
  · simp at hpair
  next evidence hevidence =>
  split at hpair
  · simp at hpair
  next haccepted =>
  split at hpair
  · simp at hpair
  next tx' hdecode =>
  split at hpair
  · simp at hpair
  next htype =>
  simp only [blockCompensationCandidateApply] at hpair
  split at hpair
  · simp at hpair
  split at hpair
  · simp at hpair
  obtain ⟨evidence', hevidence', hpair⟩ := bind_eq_ok_iff.mp hpair
  obtain rfl := Except.ok.inj (hevidence.symm.trans hevidence')
  obtain ⟨issuance, hissuance, hpair⟩ := bind_eq_ok_iff.mp hpair
  split at hpair
  · simp at hpair
  next hreason =>
  obtain ⟨hbind, hconsume, heconomy⟩ := blockCompensationAccept_eq_ok hpair
  exact ⟨evidence, tx', issuance, blockCompensation, state, hevidence, haccepted, hdecode,
    not_not.mp htype, hissuance, not_not.mp hreason, hbind, hconsume, heconomy, rfl⟩

/-- A successful round, by the branch it took. -/
inductive StepOf (env : CandidateEnv) (tx : Transaction) (s : ChainState) : ChainState → Prop
  | issuance {state : EconomicState} : tx.type = .issuance →
      applyIssuance env tx.record s.compensation s.economy.state = .ok state →
      StepOf env tx s { s with economy := { s.economy with state } }
  | transfer {economy : ChainEconomy} : tx.type = .transfer →
      applyTransfer tx.record s.economy = .ok economy → StepOf env tx s { s with economy }
  | destination {compensation : CompensationState} : tx.type = .compensationDestination →
      applyDestination tx.record s.compensation = .ok compensation →
      StepOf env tx s { s with compensation }
  | contract {contracts : ContractSnapshot} : tx.type = .contractAction →
      contractApplyTransaction s.contracts s.lifecycle tx env.context.hashProvider =
        .ok contracts →
      StepOf env tx s { s with contracts }
  | share {shares : ShareReplayState} : tx.type = .shareEvidence →
      applyShare env tx.record s.shares = .ok shares → StepOf env tx s { s with shares }
  | lifecycle {lifecycle : LifecycleState} : tx.type.isLifecycle = true →
      applyLifecycle env tx s.lifecycle = .ok lifecycle → StepOf env tx s { s with lifecycle }

theorem stepOf_of_applyTransaction {env : CandidateEnv} {tx : Transaction} {s s' : ChainState}
    (h : applyTransaction env tx s = .ok s') : StepOf env tx s s' := by
  unfold applyTransaction at h
  split at h <;> rename_i htype
  · simp at h
  all_goals
    obtain ⟨_, hbranch, h⟩ := bind_eq_ok_iff.mp h
    obtain rfl := Except.ok.inj h
  · exact .issuance htype hbranch
  · exact .transfer htype hbranch
  · exact .destination htype hbranch
  · exact .contract htype hbranch
  · exact .share htype hbranch
  all_goals exact .lifecycle (by rw [htype]; rfl) hbranch

/-! ## Runs of the loop -/

/-- Successful runs of the loop, round by round. -/
inductive Applied (env : CandidateEnv) : List Bytes → ChainState → ChainState → Prop
  | nil {s : ChainState} : Applied env [] s s
  | single {bytes : Bytes} {tx : Transaction} {rest : List Bytes} {s s₁ s' : ChainState} :
      transactionDecode bytes = .ok tx → tx.type ≠ .blockCompensationEvidence →
      applyTransaction env tx s = .ok s₁ → Applied env rest s₁ s' →
      Applied env (bytes :: rest) s s'
  | pair {bytes next : Bytes} {tx : Transaction} {rest : List Bytes} {s s₁ s' : ChainState} :
      transactionDecode bytes = .ok tx → tx.type = .blockCompensationEvidence →
      applyPair env tx next s = .ok s₁ → Applied env rest s₁ s' →
      Applied env (bytes :: next :: rest) s s'

theorem applyTransactions_cons {env : CandidateEnv} {bytes : Bytes} {tx : Transaction}
    (hdecode : transactionDecode bytes = .ok tx) (htype : tx.type ≠ .blockCompensationEvidence)
    (rest : List Bytes) (s : ChainState) :
    applyTransactions env (bytes :: rest) s =
      applyTransaction env tx s >>= applyTransactions env rest := by
  cases rest with
  | nil =>
      simp only [applyTransactions, hdecode]
      cases applyTransaction env tx s <;> rfl
  | cons next rest =>
      simp only [applyTransactions, hdecode, if_neg htype]
      cases applyTransaction env tx s <;> rfl

theorem applyTransactions_cons_pair {env : CandidateEnv} {bytes : Bytes} {tx : Transaction}
    (hdecode : transactionDecode bytes = .ok tx) (htype : tx.type = .blockCompensationEvidence)
    (next : Bytes) (rest : List Bytes) (s : ChainState) :
    applyTransactions env (bytes :: next :: rest) s =
      applyPair env tx next s >>= applyTransactions env rest := by
  simp only [applyTransactions, hdecode, if_pos htype]
  cases applyPair env tx next s <;> rfl

/-- The loop succeeds along its runs and nowhere else. -/
theorem applyTransactions_eq_ok_iff {env : CandidateEnv} {ts : List Bytes}
    {s s' : ChainState} : applyTransactions env ts s = .ok s' ↔ Applied env ts s s' := by
  constructor
  · intro h
    induction ts, s using applyTransactions.induct env with
    | case1 s =>
        obtain rfl := Except.ok.inj h
        exact .nil
    | case2 bytes s status hdecode => simp [applyTransactions, hdecode] at h
    | case3 bytes s tx hdecode =>
        by_cases htype : tx.type = .blockCompensationEvidence
        · simp [applyTransactions, hdecode, applyTransaction, htype] at h
        · simp only [applyTransactions, hdecode] at h
          exact .single hdecode htype h .nil
    | case4 bytes next rest s status hdecode => simp [applyTransactions, hdecode] at h
    | case5 bytes next rest s tx hdecode htype status hpair =>
        simp [applyTransactions, hdecode, htype, hpair] at h
    | case6 bytes next rest s tx hdecode htype s₁ hpair ih =>
        simp only [applyTransactions, hdecode, if_pos htype, hpair] at h
        exact .pair hdecode htype hpair (ih h)
    | case7 bytes next rest s tx hdecode htype status hsingle =>
        simp [applyTransactions, hdecode, htype, hsingle] at h
    | case8 bytes next rest s tx hdecode htype s₁ hsingle ih =>
        simp only [applyTransactions, hdecode, if_neg htype, hsingle] at h
        exact .single hdecode htype hsingle (ih h)
  · intro h
    induction h with
    | nil => rfl
    | single hdecode htype hstep _ ih =>
        rw [applyTransactions_cons hdecode htype, hstep]
        exact ih
    | pair hdecode htype hstep _ ih =>
        rw [applyTransactions_cons_pair hdecode htype, hstep]
        exact ih

/-! ## What the loop leaves unchanged -/

/-- A round of the loop changes components only. -/
theorem applyTransaction_sameTip {env : CandidateEnv} {tx : Transaction} {s s' : ChainState}
    (h : applyTransaction env tx s = .ok s') : SameTip s s' := by
  cases stepOf_of_applyTransaction h <;> exact .components

theorem applyPair_sameTip {env : CandidateEnv} {tx : Transaction} {next : Bytes}
    {s s' : ChainState} (h : applyPair env tx next s = .ok s') : SameTip s s' := by
  obtain ⟨_, -, h⟩ := bind_eq_ok_iff.mp h
  obtain rfl := Except.ok.inj h
  exact .components

theorem Applied.sameTip {env : CandidateEnv} {ts : List Bytes} {s s' : ChainState}
    (h : Applied env ts s s') : SameTip s s' := by
  induction h with
  | nil => exact .refl _
  | single _ _ hstep _ ih => exact (applyTransaction_sameTip hstep).trans ih
  | pair _ _ hstep _ ih => exact (applyPair_sameTip hstep).trans ih

end StnChain
