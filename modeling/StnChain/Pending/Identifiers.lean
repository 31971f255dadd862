import StnChain.Codecs
import StnChain.Pending.Admission

/-!
# The identifier of an admission

The admission functions write the identifier of a transaction to a buffer of their caller.
An accepted transaction is always named there.  One that waits already is named by the
branches that compute its identifier themselves; `stn_pending_insert` returns before it
writes, so behind the other branches the buffer keeps what it held.
-/

namespace StnChain

variable [Primitives]

/-! ## Branches that leave the naming to the insertion -/

section Passes

variable (pool : PendingPool) (active : StorageView)

/-- The checks of a share let it through to the insertion. -/
def sharePasses (length : ℕ) (record : Bytes) : Bool :=
  !pool.lacksRoom length &&
    match shareDecode record with
    | .error _ => false
    | .ok share => decide (shareReplayCheck active.state.shares share = .fresh)

/-- So do those of an issuance behind the mapping of its miner. -/
def boundIssuancePasses (issuance : IssuanceRecord) : Bool :=
  match historyIssuanceState active.blocks issuance active.state.compensation with
  | .error _ => false
  | .ok (acceptedShare, acceptedIssuance) =>
      !acceptedIssuance &&
        (acceptedShare ||
          match pendingShareForIssuance issuance active.state.compensation pool.entries with
          | .error _ => false
          | .ok pendingShare => pendingShare)

/-- So do those of an issuance for a share. -/
def issuancePasses (issuance : IssuanceRecord) : Bool :=
  decide (issuance.reason = issuanceReasonShare) &&
    match compensationStateLookup active.state.compensation
        issuance.destination.miningIdentity with
    | .error _ => false
    | .ok wallet =>
        decide (wallet.type = .wallet ∧
          wallet.identifier = issuance.destination.wallet.identifier) &&
          boundIssuancePasses pool active issuance

/-- So do those of a destination. -/
def destinationPasses (record : Bytes) : Bool :=
  match compensationDestinationDecode record with
  | .error _ => false
  | .ok destination =>
      match compensationStateLookup active.state.compensation destination.miningIdentity with
      | .ok wallet => decide (wallet.identifier = destination.wallet.identifier)
      | .error .unresolved => true
      | .error _ => false

/-- So does the network of a grant, revocation or rotation. -/
def networkPasses (c : Option ValidationContext) : Bool :=
  c.any fun c => decide (c.expectedNetwork = active.state.networkId)

/-- What the buffer holds when `stn_pending_insert` is entered from a branch that has not
written the identifier itself: the zeros of `stn_pending_admit_transaction`, or, for an
issuance whose share waits, what its caller left. -/
def insertionHeld (c : Option ValidationContext) (bytes : Bytes) (stackId : Octets 32) :
    Option (Octets 32) :=
  match transactionDecode bytes with
  | .error _ => none
  | .ok tx =>
      match tx.type with
      | .contractAction => some 0
      | .shareEvidence => if sharePasses pool active bytes.length tx.record then some 0 else none
      | .issuance =>
          match issuanceDecode tx.record with
          | .error _ => none
          | .ok issuance =>
              if issuance.reason = issuanceReasonShare ∧
                  pendingShareMatches issuance active.state.compensation pool.entries then
                some stackId
              else if issuancePasses pool active issuance then some 0
              else none
      | .compensationDestination => if destinationPasses active tx.record then some 0 else none
      | .authorityGrant | .authorityRevoke | .identityRotate =>
          if networkPasses active c then some 0 else none
      | .transfer | .publication | .blockCompensationEvidence => none

end Passes

/-! ## What an admission reports -/

/-- The pool has an entry with the identifier. -/
def PendingPool.Holds (pool : PendingPool) (id : Octets 32) : Prop :=
  ∃ e ∈ pool.entries, e.id = id

/-- What an admission tells of the identifier of a transaction: an accepted one is named and
waits; one reported as known waits already and is named, unless it was refused by the
insertion, with `held` in the buffer; and that insertion refuses what waits. -/
structure Admission.Reports (provider : HashProvider) (pool : PendingPool) (bytes : Bytes)
    (stackId : Octets 32) (held : Option (Octets 32)) (a : Admission) : Prop where
  accepted : a.result = .accepted →
    ∃ id, transactionId bytes provider = .ok id ∧ a.id = some id ∧ a.pool.Holds id
  duplicate : a.result = .duplicate →
    ∃ id, transactionId bytes provider = .ok id ∧ pool.Holds id ∧
      (a.id = some id ∨ held = some (a.id.getD stackId) ∧
        ∃ e, pendingEntry bytes provider = .ok e ∧ pool.has e.id = true)
  silent : ∀ prior e, held = some prior → pendingEntry bytes provider = .ok e →
    pool.has e.id = true → a.result = .duplicate ∧ a.id.getD stackId = prior

/-- The buffer names the transaction whenever the admission accepts it or knows it. -/
def Admission.Identifies (provider : HashProvider) (bytes : Bytes) (stackId : Octets 32)
    (a : Admission) : Prop :=
  a.result = .accepted ∨ a.result = .duplicate →
    transactionId bytes provider = .ok (a.id.getD stackId)

section Reports

variable {pool : PendingPool} {bytes record : Bytes} {c : Option ValidationContext}
  {active : StorageView} {provider : HashProvider} {stackId : Octets 32}
  {held : Option (Octets 32)}

omit [Primitives] in
theorem PendingPool.holds_of_has {id : Octets 32} (h : pool.has id = true) : pool.Holds id := by
  have hpresent : pendingLayout.present id.toNat pool = true := h
  simp only [TalliedTable.Layout.present, Option.any_eq_true] at hpresent
  obtain ⟨e, he, hkey⟩ := hpresent
  have hmem : e ∈ pool.rows := by
    have habove := List.mem_of_mem_head? (Option.mem_def.mpr he)
    have hsplit : SortedTable.below pendingLayout.key id.toNat pool.rows ++
        SortedTable.above pendingLayout.key id.toNat pool.rows = pool.rows :=
      SortedTable.below_append_above
    rw [← hsplit]
    exact List.mem_append_right _ habove
  refine ⟨e, hmem, ?_⟩
  have hsame : e.id.toNat = id.toNat := of_decide_eq_true hkey
  exact BitVec.eq_of_toNat_eq hsame

/-- An admission names what it accepts or knows exactly when a waiting transaction that its
branch leaves to the insertion has the identifier the buffer holds. -/
theorem Admission.Reports.identifies_iff {a : Admission}
    (h : a.Reports provider pool bytes stackId held) :
    a.Identifies provider bytes stackId ↔
      ∀ prior e, held = some prior → pendingEntry bytes provider = .ok e →
        pool.has e.id = true → e.id = prior := by
  constructor
  · intro hidentifies prior e hheld hentry hhas
    obtain ⟨hduplicate, hprior⟩ := h.silent prior e hheld hentry hhas
    have hid := hidentifies (.inr hduplicate)
    rw [hprior] at hid
    exact Except.ok.inj ((pendingEntry_eq_ok hentry).2.1.symm.trans hid)
  · rintro hwaiting (haccepted | hduplicate)
    · obtain ⟨id, hid, hsome, -⟩ := h.accepted haccepted
      rw [hid, hsome, Option.getD_some]
    · obtain ⟨id, hid, -, hsome | ⟨hheld, e, hentry, hhas⟩⟩ := h.duplicate hduplicate
      · rw [hid, hsome, Option.getD_some]
      · rw [(pendingEntry_eq_ok hentry).2.1, hwaiting _ e hheld hentry hhas]

theorem Admission.Reports.refused {a : Admission} (haccepted : a.result ≠ .accepted)
    (hduplicate : a.result ≠ .duplicate) : a.Reports provider pool bytes stackId none where
  accepted h := absurd h haccepted
  duplicate h := absurd h hduplicate
  silent _ _ h := by cases h

/-- A transaction without an entry is invalid, or the provider failed. -/
theorem pendingEntry_eq_error {result : PendingResult}
    (h : pendingEntry bytes provider = .error result) : result = .invalid ∨ result = .provider := by
  simp only [pendingEntry] at h
  split at h
  · exact .inl (Except.error.inj h).symm
  split at h
  · next hpair =>
      obtain rfl := Except.error.inj h
      simp only [pendingPair] at hpair
      split at hpair
      · split at hpair
        · exact .inl (Except.error.inj hpair).symm
        · cases hpair
      split at hpair
      · split at hpair
        · exact .inl (Except.error.inj hpair).symm
        · cases hpair
      split at hpair
      · exact .inl (Except.error.inj hpair).symm
      split at hpair
      · exact .inr (Except.error.inj hpair).symm
      · cases hpair
  · split at h
    · exact .inr (Except.error.inj h).symm
    · cases h

omit [Primitives] in
/-- Placing an entry finds it there, finds no room, or leaves it in the pool. -/
theorem PendingPool.place_cases (pool : PendingPool) (e : PendingEntry) :
    pendingLayout.place e pool = (.present, pool) ∧ pool.has e.id = true ∨
      pendingLayout.place e pool = (.full, pool) ∧ pool.has e.id = false ∨
      ∃ pool', pendingLayout.place e pool = (.placed, pool') ∧ pool.has e.id = false ∧
        PendingPool.Holds pool' e.id := by
  unfold TalliedTable.Layout.place
  by_cases hpresent : pendingLayout.present (pendingLayout.key e) pool = true
  · exact .inl ⟨if_pos hpresent, hpresent⟩
  · rw [if_neg hpresent]
    have habsent : pool.has e.id = false := Bool.not_eq_true _ ▸ hpresent
    split
    · exact .inr (.inl ⟨rfl, habsent⟩)
    · exact .inr (.inr ⟨_, rfl, habsent, e, SortedTable.mem_insert.mpr (.inl rfl), rfl⟩)

/-- What `stn_pending_insert` does: it accepts and names a new entry, and finds what waits
without naming it. -/
theorem PendingPool.insert_cases (pool : PendingPool) (bytes : Bytes) (provider : HashProvider) :
    ((pool.insert bytes provider).result = .accepted ∧
      ∃ id, transactionId bytes provider = .ok id ∧ (pool.insert bytes provider).id = some id ∧
        (pool.insert bytes provider).pool.Holds id ∧ pool.has id = false) ∨
    ((pool.insert bytes provider).result = .duplicate ∧
      (pool.insert bytes provider).id = none ∧
      ∃ e, pendingEntry bytes provider = .ok e ∧ pool.has e.id = true) ∨
    ((pool.insert bytes provider).result ≠ .accepted ∧
      (pool.insert bytes provider).result ≠ .duplicate ∧
      ∀ e, pendingEntry bytes provider = .ok e → pool.has e.id = false) := by
  unfold PendingPool.insert
  cases hentry : pendingEntry bytes provider with
  | error result =>
      rcases pendingEntry_eq_error hentry with rfl | rfl
      · exact .inr (.inr ⟨by simp, by simp, fun e he => by cases he⟩)
      · exact .inr (.inr ⟨by simp, by simp, fun e he => by cases he⟩)
  | ok e =>
      rcases pool.place_cases e with ⟨hplace, hhas⟩ | ⟨hplace, hhas⟩ | ⟨pool', hplace, hhas, hholds⟩
      · simp only [hplace]
        exact .inr (.inl ⟨trivial, trivial, e, rfl, hhas⟩)
      · simp only [hplace]
        refine .inr (.inr ⟨by simp, by simp, fun e' he' => ?_⟩)
        obtain rfl := Except.ok.inj he'
        exact hhas
      · simp only [hplace]
        exact .inl ⟨trivial, e.id, (pendingEntry_eq_ok hentry).2.1, rfl, hholds, hhas⟩

/-- An insertion behind a branch that left `prior` in the buffer. -/
theorem Admission.Reports.inserted (prior : Option (Octets 32)) (report : ValidationReport) :
    Admission.Reports provider pool bytes stackId (some (prior.getD stackId))
      ⟨(pool.insert bytes provider).result, report, (pool.insert bytes provider).id <|> prior,
        (pool.insert bytes provider).pool⟩ := by
  rcases PendingPool.insert_cases pool bytes provider with
    ⟨hresult, id, hid, hsome, hholds, hhas⟩ | ⟨hresult, hnone, e, hentry, hhas⟩ |
      ⟨haccepted, hduplicate, habsent⟩
  · rw [hresult, hsome]
    constructor
    · intro _
      exact ⟨id, hid, rfl, hholds⟩
    · intro hduplicate
      cases hduplicate
    · intro _ e _ hentry hwaits
      obtain rfl := Except.ok.inj (hid.symm.trans (pendingEntry_eq_ok hentry).2.1)
      rw [hhas] at hwaits
      cases hwaits
  · rw [hresult, hnone]
    constructor
    · intro haccepted
      cases haccepted
    · intro _
      exact ⟨e.id, (pendingEntry_eq_ok hentry).2.1, PendingPool.holds_of_has hhas,
        .inr ⟨rfl, e, hentry, hhas⟩⟩
    · intro prior' e' hprior _ _
      exact ⟨rfl, Option.some.inj hprior⟩
  · constructor
    · exact fun h => absurd h haccepted
    · exact fun h => absurd h hduplicate
    · intro _ e _ hentry hhas
      rw [habsent e hentry] at hhas
      cases hhas

theorem admitInserted_reports {accepted rejected : ValidationReport} :
    (admitInserted pool bytes provider (some 0) accepted rejected).Reports provider pool bytes
      stackId (some 0) :=
  Admission.Reports.inserted (some 0) _

/-- An insertion behind a branch that has named the transaction and found it new. -/
theorem admitInserted_named {id : Octets 32} (hid : transactionId bytes provider = .ok id)
    (hnew : pool.has id = false) {accepted rejected : ValidationReport} :
    (admitInserted pool bytes provider (some id) accepted rejected).Reports provider pool bytes
      stackId none := by
  have h : Admission.Reports provider pool bytes stackId _ _ :=
    Admission.Reports.inserted (some id)
      (if (pool.insert bytes provider).result = .accepted then accepted else rejected)
  constructor
  · exact h.accepted
  · intro hduplicate
    obtain ⟨id', hid', hholds, -⟩ := h.duplicate hduplicate
    rcases PendingPool.insert_cases pool bytes provider with
      ⟨hresult, -⟩ | ⟨-, -, e, hentry, hhas⟩ | ⟨-, hresult, -⟩
    · have hduplicate : (pool.insert bytes provider).result = .duplicate := hduplicate
      rw [hresult] at hduplicate
      cases hduplicate
    · obtain rfl := Except.ok.inj (hid.symm.trans (pendingEntry_eq_ok hentry).2.1)
      rw [hnew] at hhas
      cases hhas
    · exact absurd hduplicate hresult
  · intro _ _ hheld
    cases hheld

/-- The other insertion routine names what it accepts and what waits. -/
theorem admitBlockInserted_reports {signer nonce : Octets 32} :
    (admitBlockInserted pool bytes provider signer nonce).Reports provider pool bytes stackId
      none := by
  unfold admitBlockInserted PendingPool.insertBlock
  cases hid : transactionId bytes provider with
  | error status => exact Admission.Reports.refused (by simp) (by simp)
  | ok id =>
      rcases pool.place_cases ⟨id, signer, nonce, bytes⟩ with
        ⟨hplace, hhas⟩ | ⟨hplace, hhas⟩ | ⟨pool', hplace, hhas, hholds⟩
      · simp only [hplace]
        constructor
        · intro haccepted
          cases haccepted
        · intro _
          exact ⟨id, hid, PendingPool.holds_of_has hhas, .inl rfl⟩
        · intro _ _ hheld
          cases hheld
      · simp only [hplace]
        exact Admission.Reports.refused (by simp) (by simp)
      · simp only [hplace]
        constructor
        · intro _
          exact ⟨id, hid, rfl, hholds⟩
        · intro hduplicate
          cases hduplicate
        · intro _ _ hheld
          cases hheld

/-! ## The branches -/

theorem admitShare_reports (hroom : pool.lacksRoom bytes.length = false) :
    (admitShare pool bytes record active provider).Reports provider pool bytes stackId
      (if sharePasses pool active bytes.length record then some 0 else none) := by
  unfold admitShare sharePasses
  rw [hroom]
  cases shareDecode record with
  | error status => exact Admission.Reports.refused (by simp) (by simp)
  | ok share =>
      obtain ⟨result, hresult⟩ : ∃ r, shareReplayCheck active.state.shares share = r := ⟨_, rfl⟩
      simp only [hresult]
      cases result with
      | fresh => exact admitInserted_reports
      | duplicate => exact Admission.Reports.refused (by simp) (by simp)
      | capacity => exact Admission.Reports.refused (by simp) (by simp)
      | argument => exact Admission.Reports.refused (by simp) (by simp)

theorem admitBoundIssuance_reports {issuance : IssuanceRecord} :
    (admitBoundIssuance pool bytes active provider issuance).Reports provider pool bytes stackId
      (if boundIssuancePasses pool active issuance then some 0 else none) := by
  unfold admitBoundIssuance boundIssuancePasses
  cases historyIssuanceState active.blocks issuance active.state.compensation with
  | error status => exact Admission.Reports.refused (by simp) (by simp)
  | ok found =>
      obtain ⟨acceptedShare, acceptedIssuance⟩ := found
      cases acceptedIssuance with
      | true => exact Admission.Reports.refused (by simp) (by simp)
      | false =>
          cases acceptedShare with
          | true => exact admitInserted_reports
          | false =>
              simp only [Bool.false_eq_true, if_false, Bool.not_false, Bool.true_and,
                Bool.false_or]
              cases pendingShareForIssuance issuance active.state.compensation pool.entries with
              | error status => exact Admission.Reports.refused (by simp) (by simp)
              | ok pendingShare =>
                  cases pendingShare with
                  | true => exact admitInserted_reports
                  | false => exact Admission.Reports.refused (by simp) (by simp)

theorem admitIssuance_reports {issuance : IssuanceRecord}
    (hdecode : issuanceDecode record = .ok issuance) :
    (admitIssuance pool bytes record active provider).Reports provider pool bytes stackId
      (if issuancePasses pool active issuance then some 0 else none) := by
  unfold admitIssuance issuancePasses
  rw [hdecode]
  simp only
  by_cases hreason : issuance.reason = issuanceReasonShare
  · simp only [hreason, ne_eq, not_true_eq_false, if_false, decide_true, Bool.true_and]
    cases compensationStateLookup active.state.compensation
        issuance.destination.miningIdentity with
    | error status =>
        cases status
        all_goals exact Admission.Reports.refused (by simp) (by simp)
    | ok wallet =>
        simp only
        by_cases hwallet : wallet.type = .wallet ∧
            wallet.identifier = issuance.destination.wallet.identifier
        · have hbound : ¬ (wallet.type ≠ .wallet ∨
              wallet.identifier ≠ issuance.destination.wallet.identifier) := by
            simp [hwallet.1, hwallet.2]
          rw [if_neg hbound]
          simp only [hwallet, and_self, decide_true, Bool.true_and]
          exact admitBoundIssuance_reports
        · have hforeign : wallet.type ≠ .wallet ∨
              wallet.identifier ≠ issuance.destination.wallet.identifier :=
            not_and_or.mp hwallet
          rw [if_pos hforeign]
          simp only [hwallet, decide_false, Bool.false_and, Bool.false_eq_true, if_false]
          exact Admission.Reports.refused (by simp) (by simp)
  · simp only [hreason, ne_eq, not_false_eq_true, if_true, decide_false, Bool.false_and,
      Bool.false_eq_true, if_false]
    exact Admission.Reports.refused (by simp) (by simp)

theorem admitDestination_reports :
    (admitDestination pool bytes record active provider).Reports provider pool bytes stackId
      (if destinationPasses active record then some 0 else none) := by
  unfold admitDestination destinationPasses
  cases compensationDestinationDecode record with
  | error status => exact Admission.Reports.refused (by simp) (by simp)
  | ok destination =>
      obtain ⟨result, hresult⟩ : ∃ r, compensationStateLookup active.state.compensation
          destination.miningIdentity = r := ⟨_, rfl⟩
      simp only [hresult]
      cases result with
      | ok wallet =>
          simp only
          by_cases hsame : wallet.identifier = destination.wallet.identifier
          · simp only [hsame, ne_eq, not_true_eq_false, if_false, decide_true, if_true]
            exact admitInserted_reports
          · simp only [hsame, ne_eq, not_false_eq_true, if_true, decide_false,
              Bool.false_eq_true, if_false]
            exact Admission.Reports.refused (by simp) (by simp)
      | error status =>
          cases status
          case unresolved => exact admitInserted_reports
          all_goals exact Admission.Reports.refused (by simp) (by simp)

theorem admitFundedTransfer_reports {envelope : TransferEnvelope} :
    (admitFundedTransfer pool bytes active provider envelope).Reports provider pool bytes stackId
      none := by
  unfold admitFundedTransfer
  dsimp only
  split
  · exact Admission.Reports.refused (by simp) (by simp)
  next id hid =>
  split
  · next hhas =>
      constructor
      · intro haccepted
        cases haccepted
      · intro _
        exact ⟨id, hid, PendingPool.holds_of_has hhas, .inl rfl⟩
      · intro _ _ hheld
        cases hheld
  next hnew =>
  split
  · exact Admission.Reports.refused (by simp) (by simp)
  split
  · exact Admission.Reports.refused (by simp) (by simp)
  · exact Admission.Reports.refused (by simp) (by simp)
  · exact Admission.Reports.refused (by simp) (by simp)
  · exact admitInserted_named hid (Bool.not_eq_true _ ▸ hnew)

theorem admitTransfer_reports :
    (admitTransfer pool bytes record active provider).Reports provider pool bytes stackId
      none := by
  unfold admitTransfer
  split
  · exact Admission.Reports.refused (by simp) (by simp)
  split
  · exact Admission.Reports.refused (by simp) (by simp)
  split
  · exact Admission.Reports.refused (by simp) (by simp)
  split
  · exact Admission.Reports.refused (by simp) (by simp)
  · exact admitFundedTransfer_reports

theorem publicationChecks_ne_duplicate {report : ValidationReport} :
    publicationChecks record c active provider ≠ (.duplicate, report) := by
  intro h
  unfold publicationChecks at h
  split at h
  · split at h <;> cases h
  split at h
  · cases h
  split at h
  · cases h
  · have hresult := (Prod.mk.inj h).1
    simp only [disposition] at hresult
    split at hresult
    · cases hresult
    · cases hresult
    · cases hresult
    · split_ifs at hresult

/-- The transaction of a publication is encoded again as it was decoded. -/
theorem pendingAdmit_reports {tx : Transaction} (hdecode : transactionDecode bytes = .ok tx)
    (htype : tx.type = .publication) :
    (pendingAdmit pool tx.record c active provider).Reports provider pool bytes stackId none := by
  have htx : (⟨1, .publication, tx.record⟩ : Transaction) = tx := by
    rw [← (transactionDecode_eq_ok hdecode).1, ← htype]
  unfold pendingAdmit
  split
  · unfold admitPublication
    split
    · exact Admission.Reports.refused (by simp) (by simp)
    split
    · exact Admission.Reports.refused (by simp) (by simp)
    split
    · exact Admission.Reports.refused (by simp) (by simp)
    next encoded hencode =>
    rw [htx] at hencode
    have hencoded := (transactionEncode_eq_ok_iff.mp hencode).1
    obtain rfl := transactionDecode_injective hencoded hdecode
    split
    · exact Admission.Reports.refused (by simp) (by simp)
    next id hid =>
    split
    · next hhas =>
        constructor
        · intro haccepted
          cases haccepted
        · intro _
          exact ⟨id, hid, PendingPool.holds_of_has hhas, .inl rfl⟩
        · intro _ _ hheld
          cases hheld
    next hnew =>
    split
    · exact Admission.Reports.refused (by simp) (by simp)
    split
    · exact Admission.Reports.refused (by simp) (by simp)
    split
    · exact Admission.Reports.refused (by simp) (by simp)
    · exact admitInserted_named hid (Bool.not_eq_true _ ▸ hnew)
  · next result report hne hchecks =>
      apply Admission.Reports.refused
      · rintro rfl
        exact hne rfl
      · rintro rfl
        exact publicationChecks_ne_duplicate hchecks

theorem admitOther_reports :
    (admitOther pool bytes active provider c).Reports provider pool bytes stackId
      (if networkPasses active c then some 0 else none) := by
  unfold admitOther networkPasses
  cases c with
  | none => exact Admission.Reports.refused (by simp) (by simp)
  | some c =>
      simp only [Option.any_some, decide_eq_true_eq]
      by_cases hsame : c.expectedNetwork = active.state.networkId
      · rw [if_neg (not_not.mpr hsame), if_pos hsame]
        exact admitInserted_reports
      · rw [if_pos hsame, if_neg hsame]
        exact Admission.Reports.refused (by simp) (by simp)

theorem admitUndecoded_reports {status : DataStatus} :
    (admitUndecoded pool bytes status).Reports provider pool bytes stackId none := by
  unfold admitUndecoded
  dsimp only
  split
  · exact Admission.Reports.refused (by simp) (by simp)
  · exact Admission.Reports.refused (by simp) (by simp)
  · split
    · exact Admission.Reports.refused (by simp) (by simp)
    · apply Admission.Reports.refused
      · split <;> simp
      · split <;> simp
  · exact Admission.Reports.refused (by simp) (by simp)

theorem admitBlockEvidence_reports :
    (admitBlockEvidence pool bytes active provider record).Reports provider pool bytes stackId
      none := by
  unfold admitBlockEvidence
  split
  · exact Admission.Reports.refused (by simp) (by simp)
  split
  · exact Admission.Reports.refused (by simp) (by simp)
  · exact admitBlockInserted_reports

theorem admitBlockIssuance_reports {issuance : IssuanceRecord} :
    (admitBlockIssuance pool bytes active provider issuance).Reports provider pool bytes stackId
      none := by
  unfold admitBlockIssuance
  split
  · exact Admission.Reports.refused (by simp) (by simp)
  · exact admitBlockInserted_reports

/-- The issuance branch behind the decoding of its record. -/
theorem issuance_reports {tx : Transaction} (hdecode : transactionDecode bytes = .ok tx)
    (htype : tx.type = .issuance) :
    (admitPairedIssuance pool bytes c active provider tx.record).Reports provider pool bytes
      stackId (insertionHeld pool active c bytes stackId) := by
  have hplain : pendingAdmitTransaction pool bytes active provider c =
      admitIssuance pool bytes tx.record active provider := by
    simp only [pendingAdmitTransaction, hdecode, htype]
  simp only [insertionHeld, hdecode, htype]
  unfold admitPairedIssuance
  cases hissuance : issuanceDecode tx.record with
  | error status =>
      simp only [blockCompensationPendingAdmit, hdecode, htype, hissuance, hplain, admitIssuance]
      exact Admission.Reports.refused (by simp) (by simp)
  | ok issuance =>
      simp only
      split
      · have h : Admission.Reports provider pool bytes stackId _ _ :=
          Admission.Reports.inserted none (insertionReport (pool.insert bytes provider).result)
        simpa using h
      · simp only [blockCompensationPendingAdmit, hdecode, htype, hissuance, hplain]
        by_cases hreason : issuance.reason = issuanceReasonBlock
        · have hother : issuancePasses pool active issuance = false := by
            simp [issuancePasses, hreason, issuanceReasonBlock, issuanceReasonShare]
          rw [if_pos hreason, hother]
          exact admitBlockIssuance_reports
        · rw [if_neg hreason]
          exact admitIssuance_reports hissuance

/-- Every admission of a transaction reports its identifier, but what waits and is left to
the insertion. -/
theorem sharePendingAdmit_reports :
    (sharePendingAdmit pool bytes c active provider).Reports provider pool bytes stackId
      (insertionHeld pool active c bytes stackId) := by
  cases hdecode : transactionDecode bytes with
  | error status =>
      simp only [sharePendingAdmit, blockCompensationPendingAdmit, pendingAdmitTransaction,
        insertionHeld, hdecode]
      exact admitUndecoded_reports
  | ok tx =>
      cases htype : tx.type with
      | issuance =>
          simp only [sharePendingAdmit, hdecode, htype]
          exact issuance_reports hdecode htype
      | shareEvidence =>
          simp only [sharePendingAdmit, blockCompensationPendingAdmit, pendingAdmitTransaction,
            insertionHeld, hdecode, htype]
          by_cases hroom : pool.lacksRoom bytes.length = true
          · have hrefused : sharePasses pool active bytes.length tx.record = false := by
              simp [sharePasses, hroom]
            rw [if_pos hroom, hrefused]
            exact Admission.Reports.refused (by simp) (by simp)
          · rw [if_neg hroom]
            exact admitShare_reports (Bool.not_eq_true _ ▸ hroom)
      | contractAction =>
          simp only [sharePendingAdmit, blockCompensationPendingAdmit, pendingAdmitTransaction,
            insertionHeld, hdecode, htype]
          exact admitInserted_reports
      | compensationDestination =>
          simp only [sharePendingAdmit, blockCompensationPendingAdmit, pendingAdmitTransaction,
            insertionHeld, hdecode, htype]
          exact admitDestination_reports
      | transfer =>
          simp only [sharePendingAdmit, blockCompensationPendingAdmit, pendingAdmitTransaction,
            insertionHeld, hdecode, htype]
          exact admitTransfer_reports
      | publication =>
          simp only [sharePendingAdmit, blockCompensationPendingAdmit, pendingAdmitTransaction,
            insertionHeld, hdecode, htype]
          exact pendingAdmit_reports hdecode htype
      | blockCompensationEvidence =>
          simp only [sharePendingAdmit, blockCompensationPendingAdmit, insertionHeld, hdecode,
            htype]
          exact admitBlockEvidence_reports
      | authorityGrant | authorityRevoke | identityRotate =>
          simp only [sharePendingAdmit, blockCompensationPendingAdmit, pendingAdmitTransaction,
            insertionHeld, hdecode, htype]
          exact admitOther_reports

end Reports

end StnChain
