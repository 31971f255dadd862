import StnChain.Pending.Operations
import StnChain.Storage
import StnChain.Validation

/-!
# Admission to the pending pool

The admission functions judge a record or a transaction by the accepted history and by
what waits already, write a report of their stages, and put what they admit into the pool
(`stn_pending.c`).  Two further functions stand before `stn_pending_admit_transaction`:
`stn_block_compensation_pending_admit`, which takes the evidence and issuance of block
rewards, and `stn_share_pending_admit`, which keeps room for the pairs of shares and
blocks; mining requests enter by the latter.  Where an identifier is `none` the caller's
buffer was not written.
-/

namespace StnChain

variable [Primitives]

/-- What an admission function returns and writes. -/
structure Admission where
  result : PendingResult
  report : ValidationReport
  id : Option (Octets 32)
  pool : PendingPool

/-- The tail of most branches: insert the transaction and report the outcome. -/
def admitInserted (pool : PendingPool) (bytes : Bytes) (provider : HashProvider)
    (prior : Option (Octets 32)) (accepted rejected : ValidationReport) : Admission :=
  let o := pool.insert bytes provider
  ⟨o.result, if o.result = .accepted then accepted else rejected, o.id <|> prior, o.pool⟩

/-! ## Intelligence records -/

/-- `production_next`. -/
def productionNext (s : ChainState) : Bool :=
  s.publicationActivationHeight ≠ 0 &&
    (s.height = uint64Max || s.height + 1 ≥ s.publicationActivationHeight)

/-- `disposition`. -/
def disposition (r : ValidationReport) : PendingResult :=
  match r.acceptance with
  | .unresolved => .unavailable
  | .error => .provider
  | .underContext => .accepted
  | .rejected =>
      if r.envelopeError = some .unsupported then .unsupported
      else if r.payloadError = some .version then .unsupported
      else if r.network = .reject then .network
      else if r.time = .reject then .time
      else if r.signature = .reject then .signature
      else if r.authority = .reject then .authority
      else if r.replay = .reject then .replay
      else .invalid

/-- The checks `stn_pending_admit` makes before it decodes the record: by the lifecycle
where production publications apply at the next height, else by the stages of its
context. -/
def publicationChecks (record : Bytes) (c : Option ValidationContext) (active : StorageView)
    (provider : HashProvider) : PendingResult × ValidationReport :=
  if productionNext active.state then
    match lifecycleCheckPublication active.state.lifecycle record provider with
    | .provider | .capacity => (.provider, { acceptance := .error })
    | .ok => (.accepted, { acceptance := .underContext })
    | .replay => (.replay, { acceptance := .rejected })
    | .invalid => (.authority, { acceptance := .rejected })
    | _ => (.invalid, { acceptance := .rejected })
  else
    match c with
    | none => (.unavailable, { acceptance := .unresolved })
    | some c =>
        if c.expectedNetwork ≠ active.state.networkId then
          (.unavailable, { acceptance := .unresolved })
        else
          let report := validateIntelligenceRecord record c
          (disposition report, report)

/-- `same_nonce` for some entry. -/
def PendingPool.hasNonce (pool : PendingPool) (signer nonce : Octets 32) : Bool :=
  pool.entries.any fun e => e.signer = signer && e.nonce = nonce

/-- What `stn_pending_admit` does with a checked record.  The probe the source scans the
history for has no octets of its own; here it has those of the transaction. -/
def admitPublication (pool : PendingPool) (record : Bytes) (active : StorageView)
    (provider : HashProvider) (report : ValidationReport) : Admission :=
  match recordDecode record with
  | .error _ => ⟨.invalid, report, some 0, pool⟩
  | .ok r =>
      if r.networkId ≠ active.state.networkId then
        ⟨.network, { report with acceptance := .rejected, network := .reject }, some 0, pool⟩
      else
        match transactionEncode ⟨1, .publication, record⟩ txMaxSize with
        | .error _ => ⟨.provider, report, some 0, pool⟩
        | .ok encoded =>
            match transactionId encoded provider with
            | .error _ => ⟨.provider, report, some 0, pool⟩
            | .ok id =>
                if pool.has id then ⟨.duplicate, report, some id, pool⟩
                else if pool.hasNonce r.signerPublicKey r.nonce then
                  ⟨.replay, report, some id, pool⟩
                else
                  match markBlocks (scanJudge true (some provider))
                      [⟨id, r.signerPublicKey, r.nonce, encoded⟩] active.blocks with
                  | .error _ => ⟨.provider, report, some id, pool⟩
                  | .ok mask =>
                      if mask.headD false then ⟨.replay, report, some id, pool⟩
                      else admitInserted pool encoded provider (some id) report report

/-- `stn_pending_admit`. -/
def pendingAdmit (pool : PendingPool) (record : Bytes) (c : Option ValidationContext)
    (active : StorageView) (provider : HashProvider) : Admission :=
  match publicationChecks record c active provider with
  | (.accepted, report) => admitPublication pool record active provider report
  | (result, report) => ⟨result, report, some 0, pool⟩

/-! ## Issuances and the shares they are bound to -/

/-- `pending_share_for_issuance`. -/
def pendingShareForIssuance (issuance : IssuanceRecord) (compensation : CompensationState) :
    List PendingEntry → Except DataStatus Bool
  | [] => .ok false
  | e :: entries =>
      match transactionDecode e.transaction with
      | .error _ => .error .content
      | .ok tx =>
          if tx.type = .shareEvidence then
            match shareDecode tx.record with
            | .error _ => .error .content
            | .ok share =>
                if issuanceBindShare issuance share compensation = .ok () then .ok true
                else pendingShareForIssuance issuance compensation entries
          else pendingShareForIssuance issuance compensation entries

/-- A round of `history_issuance_state`: whether the share and an issuance for the evidence
have been seen. -/
def historyIssuanceRound (issuance : IssuanceRecord) (compensation : CompensationState)
    (found : Bool × Bool) (t : Bytes) : Except DataStatus (Bool × Bool) :=
  match transactionDecode t with
  | .error _ => .error .content
  | .ok tx =>
      if tx.type = .shareEvidence then
        match shareDecode tx.record with
        | .error _ => .error .content
        | .ok share =>
            if issuanceBindShare issuance share compensation = .ok () then .ok (true, found.2)
            else .ok found
      else if tx.type = .issuance then
        match issuanceDecode tx.record with
        | .error _ => .error .content
        | .ok prior =>
            if prior.reason = issuance.reason ∧ prior.evidenceId = issuance.evidenceId then
              .ok (found.1, true)
            else .ok found
      else .ok found

/-- `history_issuance_state`. -/
def historyIssuanceState (blocks : List Bytes) (issuance : IssuanceRecord)
    (compensation : CompensationState) : Except DataStatus (Bool × Bool) :=
  blocks.foldlM (fun found bytes =>
    match blockDecode bytes with
    | .error _ => .error .content
    | .ok b => b.transactions.foldlM (historyIssuanceRound issuance compensation) found)
    (false, false)

/-! ## Transactions -/

section Branches

variable (pool : PendingPool) (bytes record : Bytes) (active : StorageView)
  (provider : HashProvider)

/-- The contract branch of `stn_pending_admit_transaction`. -/
def admitContract : Admission :=
  admitInserted pool bytes provider (some 0)
    { recordStructure := .pass, acceptance := .underContext } { acceptance := .rejected }

/-- The share branch. -/
def admitShare : Admission :=
  match shareDecode record with
  | .error _ =>
      ⟨.invalid, { recordStructure := .reject, acceptance := .rejected }, some 0, pool⟩
  | .ok share =>
      match shareReplayCheck active.state.shares share with
      | .duplicate => ⟨.replay, { acceptance := .rejected }, some 0, pool⟩
      | .capacity => ⟨.capacity, { acceptance := .error }, some 0, pool⟩
      | .argument => ⟨.provider, { acceptance := .error }, some 0, pool⟩
      | .fresh =>
          admitInserted pool bytes provider (some 0) { acceptance := .underContext }
            { acceptance := .rejected }

/-- The last part of the issuance branch, behind the mapping of its miner. -/
def admitBoundIssuance (issuance : IssuanceRecord) : Admission :=
  match historyIssuanceState active.blocks issuance active.state.compensation with
  | .error _ => ⟨.provider, { acceptance := .error }, some 0, pool⟩
  | .ok (acceptedShare, acceptedIssuance) =>
      if acceptedIssuance then
        ⟨.replay, { replay := .reject, acceptance := .rejected }, some 0, pool⟩
      else
        let insert := admitInserted pool bytes provider (some 0)
          { replay := .pass, acceptance := .underContext } { acceptance := .rejected }
        if acceptedShare then insert
        else
          match pendingShareForIssuance issuance active.state.compensation pool.entries with
          | .error _ => ⟨.provider, { acceptance := .error }, some 0, pool⟩
          | .ok pendingShare =>
              if pendingShare then insert
              else ⟨.unavailable, { acceptance := .unresolved }, some 0, pool⟩

/-- The issuance branch. -/
def admitIssuance : Admission :=
  match issuanceDecode record with
  | .error _ =>
      ⟨.invalid, { recordStructure := .reject, acceptance := .rejected }, some 0, pool⟩
  | .ok issuance =>
      if issuance.reason ≠ issuanceReasonShare then
        ⟨.unavailable, { acceptance := .unresolved }, some 0, pool⟩
      else
        match compensationStateLookup active.state.compensation
            issuance.destination.miningIdentity with
        | .error .unresolved => ⟨.unavailable, { acceptance := .unresolved }, some 0, pool⟩
        | .error .capacity => ⟨.capacity, { acceptance := .error }, some 0, pool⟩
        | .error _ => ⟨.provider, { acceptance := .error }, some 0, pool⟩
        | .ok wallet =>
            if wallet.type ≠ .wallet ∨
                wallet.identifier ≠ issuance.destination.wallet.identifier then
              ⟨.replay, { acceptance := .rejected }, some 0, pool⟩
            else admitBoundIssuance pool bytes active provider issuance

/-- The destination branch. -/
def admitDestination : Admission :=
  match compensationDestinationDecode record with
  | .error _ =>
      ⟨.invalid, { recordStructure := .reject, acceptance := .rejected }, some 0, pool⟩
  | .ok destination =>
      let insert := admitInserted pool bytes provider (some 0) { acceptance := .underContext }
        { acceptance := .rejected }
      match compensationStateLookup active.state.compensation destination.miningIdentity with
      | .ok wallet =>
          if wallet.identifier ≠ destination.wallet.identifier then
            ⟨.replay, { acceptance := .rejected }, some 0, pool⟩
          else insert
      | .error .unresolved => insert
      | .error .capacity => ⟨.capacity, { acceptance := .error }, some 0, pool⟩
      | .error _ => ⟨.provider, { acceptance := .error }, some 0, pool⟩

/-- `stn_chain_transfer_replay_check`. -/
def chainTransferReplayCheck (s : ChainState) (envelope : TransferEnvelope) :
    Except DataStatus Unit :=
  if s.economy.replay.consumed.length > s.economy.replay.capacity then .error .content
  else
    match transferEnvelopeReplayCheck s.economy.replay envelope with
    | .fresh => .ok ()
    | .duplicate => .error .duplicate
    | _ => .error .argument

/-- The transfer branch behind the balance of the source. -/
def admitFundedTransfer (envelope : TransferEnvelope) : Admission :=
  let signed : ValidationReport := { signature := .pass }
  match transactionId bytes provider with
  | .error _ => ⟨.provider, { signed with acceptance := .error }, some 0, pool⟩
  | .ok id =>
      if pool.has id then ⟨.duplicate, { signed with acceptance := .rejected }, some id, pool⟩
      else if pool.hasNonce envelope.controller envelope.nonce then
        ⟨.replay, { signed with replay := .reject, acceptance := .rejected }, some id, pool⟩
      else
        match chainTransferReplayCheck active.state envelope with
        | .error .unresolved =>
            ⟨.unavailable, { signed with acceptance := .unresolved }, some id, pool⟩
        | .error .duplicate =>
            ⟨.replay, { signed with replay := .reject, acceptance := .rejected }, some id, pool⟩
        | .error _ => ⟨.provider, { signed with acceptance := .error }, some id, pool⟩
        | .ok () =>
            admitInserted pool bytes provider (some id)
              { signed with replay := .pass, acceptance := .underContext }
              { signed with replay := .pass, acceptance := .rejected }

/-- The transfer branch. -/
def admitTransfer : Admission :=
  match transferEnvelopeDecode record with
  | .error _ =>
      ⟨.invalid, { recordStructure := .reject, acceptance := .rejected }, some 0, pool⟩
  | .ok envelope =>
      match transferEnvelopeAuthorizationVerify envelope with
      | .error _ =>
          ⟨.signature, { signature := .reject, acceptance := .rejected }, some 0, pool⟩
      | .ok () =>
          match economicStateBalance active.state.economy.state envelope.transfer.source with
          | .error _ => ⟨.provider, { signature := .pass, acceptance := .error }, some 0, pool⟩
          | .ok balance =>
              if balance < envelope.transfer.units then
                ⟨.invalid, { signature := .pass, acceptance := .rejected }, some 0, pool⟩
              else admitFundedTransfer pool bytes active provider envelope

/-- The branch of the other types. -/
def admitOther (c : Option ValidationContext) : Admission :=
  match c with
  | none => ⟨.unavailable, { acceptance := .unresolved }, some 0, pool⟩
  | some c =>
      if c.expectedNetwork ≠ active.state.networkId then
        ⟨.unavailable, { acceptance := .unresolved }, some 0, pool⟩
      else
        admitInserted pool bytes provider (some 0) { acceptance := .underContext }
          { acceptance := .rejected }

/-- What `stn_pending_admit_transaction` makes of octets that do not decode. -/
def admitUndecoded (status : DataStatus) : Admission :=
  let report : ValidationReport := { recordStructure := .reject, acceptance := .rejected }
  match status with
  | .version | .type => ⟨.unsupported, report, some 0, pool⟩
  | .content =>
      match recordDecode (bytes.drop txHeaderSize) with
      | .ok _ => ⟨.invalid, report, some 0, pool⟩
      | .error error =>
          ⟨if error = .unsupported then .unsupported else .invalid,
            { report with envelopeError := some error }, some 0, pool⟩
  | _ => ⟨.invalid, report, some 0, pool⟩

/-- `stn_pending_admit_transaction`. -/
def pendingAdmitTransaction (c : Option ValidationContext) : Admission :=
  match transactionDecode bytes with
  | .error status => admitUndecoded pool bytes status
  | .ok tx =>
      match tx.type with
      | .contractAction => admitContract pool bytes provider
      | .shareEvidence => admitShare pool bytes tx.record active provider
      | .issuance => admitIssuance pool bytes tx.record active provider
      | .compensationDestination => admitDestination pool bytes tx.record active provider
      | .transfer => admitTransfer pool bytes tx.record active provider
      | .publication => pendingAdmit pool tx.record c active provider
      | .authorityGrant | .authorityRevoke | .identityRotate | .blockCompensationEvidence =>
          admitOther pool bytes active provider c

end Branches

/-! ## Evidence and issuances of block rewards -/

/-- `accepted_block`. -/
def acceptedBlock (blockId : Octets 32) : List Bytes → Bool
  | [] => false
  | bytes :: blocks =>
      match chainBlockId bytes ⟨some Primitives.sha256⟩ with
      | .error _ => false
      | .ok id => if id = blockId then true else acceptedBlock blockId blocks

/-- `pending_block_evidence` finds evidence the issuance is bound to. -/
def pendingBlockEvidence (issuance : IssuanceRecord) (compensation : CompensationState)
    (entries : List PendingEntry) : Bool :=
  entries.any fun e =>
    match transactionDecode e.transaction with
    | .error _ => false
    | .ok tx =>
        if tx.type ≠ .blockCompensationEvidence then false
        else
          match blockCompensationDecode tx.record with
          | .error _ => false
          | .ok evidence => issuanceBindBlock issuance evidence compensation = .ok ()

/-- The report of an insertion the two functions below make themselves. -/
def insertionReport (result : PendingResult) : ValidationReport :=
  if result = .accepted then { recordStructure := .pass, acceptance := .underContext }
  else { recordStructure := .reject, acceptance := .rejected }

/-- An insertion by `pending_insert_block`, with its report. -/
def admitBlockInserted (pool : PendingPool) (bytes : Bytes) (provider : HashProvider)
    (signer nonce : Octets 32) : Admission :=
  let o := pool.insertBlock bytes provider signer nonce
  ⟨o.result, insertionReport o.result, o.id <|> some 0, o.pool⟩

section Pairs

variable (pool : PendingPool) (bytes : Bytes) (c : Option ValidationContext)
  (active : StorageView) (provider : HashProvider)

/-- The evidence branch of `stn_block_compensation_pending_admit`. -/
def admitBlockEvidence (record : Bytes) : Admission :=
  match blockCompensationDecode record with
  | .error _ => ⟨.invalid, { acceptance := .rejected }, some 0, pool⟩
  | .ok evidence =>
      if !acceptedBlock evidence.blockId active.blocks then
        ⟨.invalid, { acceptance := .rejected }, some 0, pool⟩
      else admitBlockInserted pool bytes provider evidence.miner.identifier evidence.blockId

/-- The branch of an issuance for a block. -/
def admitBlockIssuance (issuance : IssuanceRecord) : Admission :=
  if !pendingBlockEvidence issuance active.state.compensation pool.entries then
    ⟨.unavailable, { acceptance := .unresolved }, some 0, pool⟩
  else
    admitBlockInserted pool bytes provider issuance.destination.miningIdentity.identifier
      issuance.evidenceId

/-- `stn_block_compensation_pending_admit`. -/
def blockCompensationPendingAdmit : Admission :=
  match transactionDecode bytes with
  | .error _ => pendingAdmitTransaction pool bytes active provider c
  | .ok tx =>
      match tx.type with
      | .blockCompensationEvidence => admitBlockEvidence pool bytes active provider tx.record
      | .issuance =>
          match issuanceDecode tx.record with
          | .error _ => pendingAdmitTransaction pool bytes active provider c
          | .ok issuance =>
              if issuance.reason = issuanceReasonBlock then
                admitBlockIssuance pool bytes active provider issuance
              else pendingAdmitTransaction pool bytes active provider c
      | _ => pendingAdmitTransaction pool bytes active provider c

/-! ## Room for pairs -/

/-- `pending_share_matches`. -/
def pendingShareMatches (issuance : IssuanceRecord) (compensation : CompensationState)
    (entries : List PendingEntry) : Bool :=
  entries.any fun e =>
    match transactionDecode e.transaction with
    | .error _ => false
    | .ok tx =>
        if tx.type ≠ .shareEvidence then false
        else
          match shareDecode tx.record with
          | .error _ => false
          | .ok share => issuanceBindShare issuance share compensation = .ok ()

/-- The octets of the transaction of an issuance. -/
def issuanceTxSize : ℕ := txHeaderSize + issuanceCanonicalSize

/-- `STN_BLOCK_REWARD_EVIDENCE_TX_SIZE` and `STN_BLOCK_REWARD_ISSUANCE_TX_SIZE` together. -/
def blockRewardSize : ℕ := txHeaderSize + blockCompensationCanonicalSize + issuanceTxSize

/-- There is no room for a share of that length with its issuance and for a reward pair. -/
def PendingPool.lacksRoom (pool : PendingPool) (length : ℕ) : Bool :=
  let free := sizeSub pendingMaxBytes pool.bytes
  pool.entries.length > pendingMaxEntries - 4 || length > free ||
    issuanceTxSize > sizeSub free length ||
    blockRewardSize > sizeSub (sizeSub free length) issuanceTxSize

/-- The issuance branch of `stn_share_pending_admit`. -/
def admitPairedIssuance (record : Bytes) : Admission :=
  match issuanceDecode record with
  | .error _ => blockCompensationPendingAdmit pool bytes c active provider
  | .ok issuance =>
      if issuance.reason = issuanceReasonShare ∧
          pendingShareMatches issuance active.state.compensation pool.entries then
        let o := pool.insert bytes provider
        ⟨o.result, insertionReport o.result, o.id, o.pool⟩
      else blockCompensationPendingAdmit pool bytes c active provider

/-- `stn_share_pending_admit`. -/
def sharePendingAdmit : Admission :=
  match transactionDecode bytes with
  | .error _ => blockCompensationPendingAdmit pool bytes c active provider
  | .ok tx =>
      match tx.type with
      | .shareEvidence =>
          if pool.lacksRoom bytes.length then
            ⟨.capacity, { acceptance := .rejected }, none, pool⟩
          else blockCompensationPendingAdmit pool bytes c active provider
      | .issuance => admitPairedIssuance pool bytes c active provider tx.record
      | _ => blockCompensationPendingAdmit pool bytes c active provider

end Pairs

/-! ## What an admission does to the pool -/

variable {pool : PendingPool} {bytes record : Bytes} {c : Option ValidationContext}
  {active : StorageView} {provider : HashProvider}

/-- The admission accepts and adds an entry, or leaves the pool alone. -/
def Admission.Settles (provider : HashProvider) (pool : PendingPool) (a : Admission) : Prop :=
  PendingPool.Settles provider pool a.result a.id a.pool

theorem Admission.refused {result : PendingResult} {report : ValidationReport}
    {id : Option (Octets 32)} (h : result ≠ .accepted) :
    Admission.Settles provider pool ⟨result, report, id, pool⟩ :=
  .refused h

/-- The identifier an accepted operation reports is the one it writes. -/
theorem PendingPool.Settles.orElse {result : PendingResult} {id prior : Option (Octets 32)}
    {pool' : PendingPool} (h : PendingPool.Settles provider pool result id pool') :
    PendingPool.Settles provider pool result (id <|> prior) pool' := by
  rcases h with ⟨haccepted, e, he, hplace, rfl⟩ | hrefused
  · exact .inl ⟨haccepted, e, he, hplace, rfl⟩
  · exact .inr hrefused

theorem admitInserted_settles {prior : Option (Octets 32)} {accepted rejected : ValidationReport} :
    (admitInserted pool bytes provider prior accepted rejected).Settles provider pool :=
  (PendingPool.insert_settles pool bytes provider).orElse

theorem admitBlockInserted_settles {signer nonce : Octets 32} {tx : Transaction}
    (hdecode : transactionDecode bytes = .ok tx) (hpair : blockPair tx = some (signer, nonce)) :
    (admitBlockInserted pool bytes provider signer nonce).Settles provider pool :=
  (PendingPool.insertBlock_settles pool hdecode hpair).orElse

theorem admitPublication_settles {report : ValidationReport} :
    (admitPublication pool record active provider report).Settles provider pool := by
  unfold admitPublication
  split
  · exact Admission.refused (by simp)
  split
  · exact Admission.refused (by simp)
  split
  · exact Admission.refused (by simp)
  split
  · exact Admission.refused (by simp)
  split
  · exact Admission.refused (by simp)
  split
  · exact Admission.refused (by simp)
  split
  · exact Admission.refused (by simp)
  split
  · exact Admission.refused (by simp)
  · exact admitInserted_settles

theorem pendingAdmit_settles :
    (pendingAdmit pool record c active provider).Settles provider pool := by
  unfold pendingAdmit
  split
  · exact admitPublication_settles
  · next result report hne hchecks =>
      apply Admission.refused
      rintro rfl
      exact hne rfl

theorem admitShare_settles :
    (admitShare pool bytes record active provider).Settles provider pool := by
  unfold admitShare
  split
  · exact Admission.refused (by simp)
  split
  · exact Admission.refused (by simp)
  · exact Admission.refused (by simp)
  · exact Admission.refused (by simp)
  · exact admitInserted_settles

theorem admitBoundIssuance_settles {issuance : IssuanceRecord} :
    (admitBoundIssuance pool bytes active provider issuance).Settles provider pool := by
  unfold admitBoundIssuance
  split
  · exact Admission.refused (by simp)
  split
  · exact Admission.refused (by simp)
  dsimp only
  split
  · exact admitInserted_settles
  split
  · exact Admission.refused (by simp)
  split
  · exact admitInserted_settles
  · exact Admission.refused (by simp)

theorem admitIssuance_settles :
    (admitIssuance pool bytes record active provider).Settles provider pool := by
  unfold admitIssuance
  split
  · exact Admission.refused (by simp)
  split
  · exact Admission.refused (by simp)
  split
  · exact Admission.refused (by simp)
  · exact Admission.refused (by simp)
  · exact Admission.refused (by simp)
  split
  · exact Admission.refused (by simp)
  · exact admitBoundIssuance_settles

theorem admitDestination_settles :
    (admitDestination pool bytes record active provider).Settles provider pool := by
  unfold admitDestination
  split
  · exact Admission.refused (by simp)
  dsimp only
  split
  · split
    · exact Admission.refused (by simp)
    · exact admitInserted_settles
  · exact admitInserted_settles
  · exact Admission.refused (by simp)
  · exact Admission.refused (by simp)

theorem admitFundedTransfer_settles {envelope : TransferEnvelope} :
    (admitFundedTransfer pool bytes active provider envelope).Settles provider pool := by
  unfold admitFundedTransfer
  dsimp only
  split
  · exact Admission.refused (by simp)
  split
  · exact Admission.refused (by simp)
  split
  · exact Admission.refused (by simp)
  split
  · exact Admission.refused (by simp)
  · exact Admission.refused (by simp)
  · exact Admission.refused (by simp)
  · exact admitInserted_settles

theorem admitTransfer_settles :
    (admitTransfer pool bytes record active provider).Settles provider pool := by
  unfold admitTransfer
  split
  · exact Admission.refused (by simp)
  split
  · exact Admission.refused (by simp)
  split
  · exact Admission.refused (by simp)
  split
  · exact Admission.refused (by simp)
  · exact admitFundedTransfer_settles

theorem admitOther_settles : (admitOther pool bytes active provider c).Settles provider pool := by
  unfold admitOther
  split
  · exact Admission.refused (by simp)
  split
  · exact Admission.refused (by simp)
  · exact admitInserted_settles

theorem admitUndecoded_settles {status : DataStatus} :
    (admitUndecoded pool bytes status).Settles provider pool := by
  unfold admitUndecoded
  dsimp only
  split
  · exact Admission.refused (by simp)
  · exact Admission.refused (by simp)
  · split
    · exact Admission.refused (by simp)
    · apply Admission.refused
      split <;> simp
  · exact Admission.refused (by simp)

theorem pendingAdmitTransaction_settles :
    (pendingAdmitTransaction pool bytes active provider c).Settles provider pool := by
  unfold pendingAdmitTransaction
  split
  · exact admitUndecoded_settles
  split
  · exact admitInserted_settles
  · exact admitShare_settles
  · exact admitIssuance_settles
  · exact admitDestination_settles
  · exact admitTransfer_settles
  · exact pendingAdmit_settles
  all_goals exact admitOther_settles

theorem admitBlockEvidence_settles {tx : Transaction} (hdecode : transactionDecode bytes = .ok tx)
    (htype : tx.type = .blockCompensationEvidence) :
    (admitBlockEvidence pool bytes active provider tx.record).Settles provider pool := by
  unfold admitBlockEvidence
  split
  · exact Admission.refused (by simp)
  next evidence hevidence =>
  split
  · exact Admission.refused (by simp)
  · apply admitBlockInserted_settles hdecode
    simp [blockPair, htype, hevidence, Except.toOption]

theorem admitBlockIssuance_settles {tx : Transaction} (hdecode : transactionDecode bytes = .ok tx)
    (htype : tx.type = .issuance) {issuance : IssuanceRecord}
    (hissuance : issuanceDecode tx.record = .ok issuance)
    (hreason : issuance.reason = issuanceReasonBlock) :
    (admitBlockIssuance pool bytes active provider issuance).Settles provider pool := by
  unfold admitBlockIssuance
  split
  · exact Admission.refused (by simp)
  · apply admitBlockInserted_settles hdecode
    simp [blockPair, htype, hissuance, hreason]

theorem blockCompensationPendingAdmit_settles :
    (blockCompensationPendingAdmit pool bytes c active provider).Settles provider pool := by
  unfold blockCompensationPendingAdmit
  split
  · exact pendingAdmitTransaction_settles
  next tx hdecode =>
  split
  · next htype => exact admitBlockEvidence_settles hdecode htype
  · next htype =>
      split
      · exact pendingAdmitTransaction_settles
      next issuance hissuance =>
      split
      · next hreason => exact admitBlockIssuance_settles hdecode htype hissuance hreason
      · exact pendingAdmitTransaction_settles
  · exact pendingAdmitTransaction_settles

theorem admitPairedIssuance_settles :
    (admitPairedIssuance pool bytes c active provider record).Settles provider pool := by
  unfold admitPairedIssuance
  split
  · exact blockCompensationPendingAdmit_settles
  split
  · exact PendingPool.insert_settles pool bytes provider
  · exact blockCompensationPendingAdmit_settles

/-- Every admission either accepts and adds its entry or leaves the pool as it was. -/
theorem sharePendingAdmit_settles :
    (sharePendingAdmit pool bytes c active provider).Settles provider pool := by
  unfold sharePendingAdmit
  split
  · exact blockCompensationPendingAdmit_settles
  split
  · split
    · exact Admission.refused (by simp)
    · exact blockCompensationPendingAdmit_settles
  · exact admitPairedIssuance_settles
  · exact blockCompensationPendingAdmit_settles

end StnChain
