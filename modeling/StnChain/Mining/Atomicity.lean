import StnChain.Mining.Submission

/-!
# Failing requests that change the history

SUBMIT_WORK, the evidence requests and the COMMIT of a suffix stage of `stn_mining.c`.  What
the storage refuses leaves the service as it was.  Behind the commit a request can still
fail: the evidence branches look at the capacity of the reply there, and SUBMIT_WORK admits
the reward of its block.  `mining_failure_atomic_iff` says that nothing else breaks the
atomicity of a failure.
-/

namespace StnChain

section

variable [Primitives] {σ : Type}

/-! ## Failure atomicity -/

/-- The stored, the active and the waiting data of two services are the same. -/
structure MiningService.Same (s s' : MiningService σ) : Prop where
  storage : s'.storage = s.storage
  durable : s.storage.persisted s'.device = s.storage.persisted s.device
  active : s'.active = s.active
  pending : s'.pending = s.pending

/-- The stored image of a service is another one than before. -/
def MiningService.Stores (s s' : MiningService σ) : Prop :=
  s.storage.persisted s'.device ≠ s.storage.persisted s.device

/-- An error leaves what is stored and what is active, and of the pool all but what the
loaded history includes; a change of what is stored is reported as accepted. -/
structure MiningService.FailureAtomic (s : MiningService σ) (o : MiningOutcome σ) : Prop where
  durable : o.reply.code ≠ some .ok →
    s.storage.persisted o.service.device = s.storage.persisted s.device
  active : o.reply.code ≠ some .ok → o.service.active = s.active
  pending : o.reply.code ≠ some .ok → o.service.pending = s.pending ∨
    ∃ v pool pool', s.Loads v ∧ s.pending = some pool ∧ o.service.pending = some pool' ∧
      pool.PrunedOf s.chain.hashProvider v.blocks pool'
  reported : s.Stores o.service → o.reply.code = some .ok

/-- The requests that can change the accepted history. -/
def RpcMessage.ChangesHistory (q : RpcMessage) : Prop :=
  q.methodOf = some .submitWork ∨ q.methodOf = some .submitBlockEvidence ∨
    q.methodOf = some .submitHistoryEvidence ∨ q.methodOf = some .submitSuffixEvidence ∨
    q.methodOf = some .suffixStageCommit

/-! ## Failures behind the commit -/

/-- The storage appends a block, which leaves this service. -/
def MiningService.Extends (s : MiningService σ) (v : StorageView) (bytes : Bytes)
    (s' : MiningService σ) : Prop :=
  ∃ mask workspace, miningInclusions s [bytes] = .ok mask ∧
    ensureStorageCapacity s (storageBytes v.blocks + 4 + bytes.length) = some workspace ∧
    (storageExtend s.chain s.storage bytes workspace v.state s.device).status = .ok () ∧
    s' = { s with
      workspace
      device := (storageExtend s.chain s.storage bytes workspace v.state s.device).device
      active := (storageExtend s.chain s.storage bytes workspace v.state s.device).active
      pending := s.pending.map fun pool => pool.prune mask }

/-- The fork choice prefers a candidate, and the storage replaces the history by it, as its held
blocks then read. -/
def MiningService.Replaces (s : MiningService σ) (current : ChainState) (held given : List Bytes)
    (fork : ForkReport × Option ReorgPlan) : Prop :=
  ∃ plan mask workspace, fork.1.result = .candidate ∧ fork.2 = some plan ∧
    ensureStorageCapacity s (storageBytes (held ++ given) + 32) = some workspace ∧
    miningInclusions s (s.heldBlocks workspace held 0 ++ given) = .ok mask ∧
    (storageApply s.chain s.storage (s.heldBlocks workspace held 1 ++ given) plan workspace current
      s.device).status = .ok ()

/-- The reward of a miner is not built over the active history, or the pool refuses it. -/
inductive MiningService.RefusesReward (s : MiningService σ) (miner : Address) : Prop
  | unbuilt (pool : PendingPool) (code : RpcCode) (hpending : s.pending = some pool)
      (hbuilt : rewardTransactions s.active miner = .error code)
  | unloaded (pool : PendingPool) (pair : Bytes × Bytes) (status : StorageStatus) (device : σ)
      (hpending : s.pending = some pool) (hbuilt : rewardTransactions s.active miner = .ok pair)
      (hloaded : storageLoad s.chain s.storage s.workspace.currentCapacity s.device =
        (.error status, device))
  | evidence (pool : PendingPool) (pair : Bytes × Bytes) (v : StorageView) (device : σ)
      (hpending : s.pending = some pool) (hbuilt : rewardTransactions s.active miner = .ok pair)
      (hloaded : storageLoad s.chain s.storage s.workspace.currentCapacity s.device =
        (.ok v, device))
      (hrefused : let a := sharePendingAdmit pool pair.1 s.intelligence v s.chain.hashProvider
        a.result ≠ .accepted ∧ a.result ≠ .duplicate)
  | issuance (pool : PendingPool) (pair : Bytes × Bytes) (v : StorageView) (device : σ)
      (hpending : s.pending = some pool) (hbuilt : rewardTransactions s.active miner = .ok pair)
      (hloaded : storageLoad s.chain s.storage s.workspace.currentCapacity s.device =
        (.ok v, device))
      (hrefused : let a := sharePendingAdmit pool pair.1 s.intelligence v s.chain.hashProvider
        let b := sharePendingAdmit a.pool pair.2 s.intelligence v s.chain.hashProvider
        b.result ≠ .accepted ∧ b.result ≠ .duplicate)

/-- The SUBMIT_BLOCK_EVIDENCE branch commits the block of a payload. -/
def MiningService.CommitsBlock (s : MiningService σ) (v : StorageView) (payload : Bytes) : Prop :=
  blockHeaderSize ≤ payload.length ∧ payload.length ≤ blockMaxSize ∧ ∃ s', s.Extends v payload s'

/-- The SUBMIT_HISTORY_EVIDENCE branch commits the history of a payload. -/
def MiningService.CommitsHistory (s : MiningService σ) (v : StorageView) (payload : Bytes) : Prop :=
  4 ≤ payload.length ∧ wireRead payload 0 4 ≠ 0 ∧
    ∃ candidate, evidenceBlocks (wireRead payload 0 4) (payload.drop 4) = some candidate ∧
      s.Replaces v.state [] candidate (forkEvaluateHistory s.chain v.blocks candidate)

/-- The SUBMIT_SUFFIX_EVIDENCE branch commits the suffix of a payload, over the history it
loads again. -/
def MiningService.CommitsSuffix (s : MiningService σ) (payload : Bytes) : Prop :=
  8 ≤ payload.length ∧ wireRead payload 0 4 ≠ 0 ∧ wireRead payload 4 4 ≠ 0 ∧
    ∃ v device suffix,
      storageLoad s.chain s.storage s.workspace.currentCapacity s.device = (.ok v, device) ∧
      wireRead payload 0 4 ≤ v.blocks.length ∧
      evidenceBlocks (wireRead payload 4 4) (payload.drop 8) = some suffix ∧
      MiningService.Replaces { s with device } v.state
        (v.blocks.take (wireRead payload 0 4)) suffix
        (forkEvaluateSuffix s.chain v.blocks (wireRead payload 0 4) suffix)

/-- The COMMIT branch commits the suffix of the stage. -/
def MiningService.CommitsStage (s : MiningService σ) (v : StorageView) : Prop :=
  s.stage.active = true ∧ s.stage.receivedCount = s.stage.expectedCount ∧
    s.stage.prefixCount ≤ v.blocks.length ∧
    s.Replaces v.state [] (v.blocks.take s.stage.prefixCount ++ s.stage.slots.filterMap id)
      (forkEvaluateSuffix s.chain v.blocks s.stage.prefixCount (s.stage.slots.filterMap id))

/-- The SUBMIT_WORK branch commits the block of a payload, and its reward is refused. -/
def MiningService.LosesReward (s : MiningService σ) (v : StorageView) (payload : Bytes) : Prop :=
  ∃ submitted miner s', submittedWork v payload = .ok (submitted, miner) ∧
    verifyWork s.chain payload submitted = .ok () ∧ s.Extends v submitted s' ∧
    s'.RefusesReward miner

/-- Over a loaded history, a request passes its checks and its history is committed, but the
reply has no room for 80 octets or, for solved work, the reward is refused. -/
def MiningService.LateFailure (s : MiningService σ) (v : StorageView) (q : RpcMessage)
    (capacity : ℕ) : Prop :=
  match q.methodOf with
  | some .submitBlockEvidence => s.CommitsBlock v q.payload ∧ capacity < 80
  | some .submitHistoryEvidence => s.CommitsHistory v q.payload ∧ capacity < 80
  | some .submitSuffixEvidence => s.CommitsSuffix q.payload ∧ capacity < 80
  | some .suffixStageCommit => s.CommitsStage v ∧ capacity < 80
  | some .submitWork => s.LosesReward v q.payload ∧ 80 ≤ capacity
  | _ => False

/-- A request is loaded a history and fails behind its commit. -/
def MiningService.FailsLate (s : MiningService σ) (q : RpcMessage) (capacity : ℕ) : Prop :=
  s.sha256Selected = true ∧ s.chain.powPolicy.isSome ∧
    ∃ prepared v device, prepareSnapshot s = (.ok (), prepared) ∧
      storageLoad prepared.chain prepared.storage prepared.snapshotCapacity prepared.device =
        (.ok v, device) ∧
      MiningService.LateFailure { prepared with device } v q capacity

/-! ## What the storage does to a service -/

variable {s s' s'' : MiningService σ} {v : StorageView} {q : RpcMessage} {memory : Bytes}
  {capacity : ℕ} {o : MiningOutcome σ} {r : RpcCode × MiningService σ}

theorem MiningService.Same.refl (s : MiningService σ) : s.Same s :=
  ⟨rfl, rfl, rfl, rfl⟩

theorem MiningService.Same.trans (h : s.Same s') (h' : s'.Same s'') : s.Same s'' where
  storage := h'.storage.trans h.storage
  durable := by
    have hlater := h'.durable
    rw [h.storage] at hlater
    exact hlater.trans h.durable
  active := h'.active.trans h.active
  pending := h'.pending.trans h.pending

/-- A change of the history is refused and leaves the service, or another image is stored. -/
structure Change (s : MiningService σ) (r : RpcCode × MiningService σ) : Prop where
  refused : r.1 ≠ .ok → s.Same r.2
  stored : r.1 = .ok → s.Stores r.2

theorem Change.of_same (h : s.Same s') {code : RpcCode} (hcode : code ≠ .ok) :
    Change s (code, s') where
  refused _ := h
  stored hok := absurd hok hcode

/-- A service that differs in its buffers only changes the same way. -/
theorem Change.of_workspace {workspace : StorageWorkspace}
    (h : Change { s with workspace } r) : Change s r where
  refused hcode :=
    have hsame := h.refused hcode
    ⟨hsame.storage, hsame.durable, hsame.active, hsame.pending⟩
  stored := h.stored

/-- What an atomic storage operation published has more work than what was stored, so the
image is another one. -/
theorem afterStorage_change {active : ChainState} {H : List Bytes → Prop}
    {outcome : StorageOutcome σ} (mask : List Bool)
    (h : outcome.Atomic s.chain s.storage active s.device H) :
    Change s (afterStorage s outcome mask) := by
  unfold afterStorage
  cases hstatus : outcome.status with
  | error status =>
      have hcode : storageCode (.error status) ≠ .ok := storageCode_error_ne_ok status
      have hsame : s.Same { s with device := outcome.device } :=
        ⟨rfl, (h.failed status hstatus).1, rfl, rfl⟩
      split
      · next hok => exact absurd hok hcode
      · exact .of_same hsame hcode
  | ok _ =>
      obtain ⟨image, blocks, himage, hdecode, -, -, hwork⟩ := h.done hstatus
      refine ⟨fun hcode => absurd rfl hcode, fun _ hsame => ?_⟩
      have hstored : s.storage.persisted s.device = some image := hsame.symm.trans himage
      exact lt_irrefl _ (hwork image _ hstored hdecode)

theorem publishHistory_change {current : ChainState} {held given : List Bytes} {plan : ReorgPlan} :
    Change s (publishHistory s current held given plan) := by
  unfold publishHistory
  split
  · exact .of_same (.refl s) (by simp)
  next workspace _ =>
  have hsame : s.Same { s with workspace } := ⟨rfl, rfl, rfl, rfl⟩
  dsimp only
  split
  · exact .of_same hsame (by simp)
  · next mask _ =>
      exact .of_workspace (afterStorage_change mask (storageApply_atomic _ plan workspace))

theorem publishPreferred_change {current : ChainState} {held given : List Bytes}
    {fork : ForkReport × Option ReorgPlan} {notPreferred : RpcCode} (hcode : notPreferred ≠ .ok) :
    Change s (publishPreferred s current held given fork notPreferred) := by
  unfold publishPreferred
  split
  · exact .of_same (.refl s) hcode
  · exact .of_same (.refl s) hcode
  · exact .of_same (.refl s) (by simp)
  · exact publishHistory_change
  · exact .of_same (.refl s) (by simp)

theorem extendHistory_change {bytes : Bytes} : Change s (extendHistory s v bytes) := by
  unfold extendHistory
  split
  · exact .of_same (.refl s) (by simp)
  next mask _ =>
  split
  · exact .of_same (.refl s) (by simp)
  · next workspace _ =>
      exact .of_workspace (afterStorage_change mask (storageExtend_atomic bytes workspace))

/-! ## When the storage accepts -/

theorem afterStorage_eq_ok_iff {outcome : StorageOutcome σ} {mask : List Bool} :
    afterStorage s outcome mask = (.ok, s') ↔ outcome.status = .ok () ∧
      s' = { s with
        device := outcome.device
        active := outcome.active
        pending := s.pending.map fun pool => pool.prune mask } := by
  unfold afterStorage
  cases hstatus : outcome.status with
  | error status =>
      have hcode : storageCode (.error status) ≠ .ok := storageCode_error_ne_ok status
      split
      · next hok => exact absurd hok hcode
      · simp [hcode]
  | ok _ => simp [storageCode, eq_comm]

theorem extendHistory_eq_ok_iff {bytes : Bytes} :
    extendHistory s v bytes = (.ok, s') ↔ s.Extends v bytes s' := by
  unfold extendHistory MiningService.Extends
  cases hmask : miningInclusions s [bytes] with
  | error status => simp
  | ok mask =>
      cases hworkspace : ensureStorageCapacity s (storageBytes v.blocks + 4 + bytes.length) with
      | none => simp
      | some workspace => simp [afterStorage_eq_ok_iff]

theorem publishHistory_ok_iff {current : ChainState} {held given : List Bytes} {plan : ReorgPlan} :
    (publishHistory s current held given plan).1 = .ok ↔
      ∃ mask workspace,
        ensureStorageCapacity s (storageBytes (held ++ given) + 32) = some workspace ∧
        miningInclusions s (s.heldBlocks workspace held 0 ++ given) = .ok mask ∧
        (storageApply s.chain s.storage (s.heldBlocks workspace held 1 ++ given) plan workspace
          current s.device).status = .ok () := by
  unfold publishHistory
  cases hworkspace : ensureStorageCapacity s (storageBytes (held ++ given) + 32) with
  | none => simp
  | some workspace =>
      dsimp only
      cases hmask : miningInclusions s (s.heldBlocks workspace held 0 ++ given) with
      | error status => simp [hmask]
      | ok mask =>
          simp only [afterStorage]
          cases hstatus : (storageApply s.chain s.storage (s.heldBlocks workspace held 1 ++ given)
              plan workspace current s.device).status with
          | error status =>
              have hcode : storageCode (.error status) ≠ .ok := storageCode_error_ne_ok status
              split
              · next hok => exact absurd hok hcode
              · simp [hcode, hstatus]
          | ok _ => simp [storageCode, hstatus, hmask]

theorem publishPreferred_ok_iff {current : ChainState} {held given : List Bytes}
    {fork : ForkReport × Option ReorgPlan} {notPreferred : RpcCode} (hcode : notPreferred ≠ .ok) :
    (publishPreferred s current held given fork notPreferred).1 = .ok ↔
      s.Replaces current held given fork := by
  obtain ⟨report, plan⟩ := fork
  unfold MiningService.Replaces
  constructor
  · intro hok
    unfold publishPreferred at hok
    split at hok
    · exact absurd hok hcode
    · exact absurd hok hcode
    · cases hok
    · next plan hresult hplan =>
        obtain ⟨mask, workspace, hroom, hmask, hstatus⟩ := publishHistory_ok_iff.mp hok
        exact ⟨plan, mask, workspace, hresult, hplan, hroom, hmask, hstatus⟩
    · cases hok
  · rintro ⟨plan, mask, workspace, hresult, hplan, hroom, hmask, hstatus⟩
    obtain ⟨result, side, validation⟩ := report
    obtain rfl : result = .candidate := hresult
    obtain rfl : _ = some plan := hplan
    exact publishHistory_ok_iff.mpr ⟨mask, workspace, hroom, hmask, hstatus⟩

theorem rewardTransactions_ne_ok {t : ChainState} {miner : Address} :
    rewardTransactions t miner ≠ .error .ok := by
  intro h
  unfold rewardTransactions at h
  split at h
  · cases h
  · cases h
  · cases h
  · cases h
  split at h
  · cases h
  · cases h
  · cases h
  · cases h

/-- The reward is admitted unless one of its steps is refused. -/
theorem admitReward_ne_ok_iff {miner : Address} :
    (admitReward s miner).1 ≠ .ok ↔ s.RefusesReward miner := by
  constructor
  · intro hcode
    unfold admitReward at hcode
    split at hcode
    · exact absurd rfl hcode
    next pool hpending =>
    split at hcode
    · next code hbuilt => exact .unbuilt pool code hpending hbuilt
    next evidenceTx issuanceTx hbuilt =>
    split at hcode
    · next status device hloaded =>
        exact .unloaded pool (evidenceTx, issuanceTx) status device hpending hbuilt hloaded
    next loaded device hloaded =>
    unfold submitRewardPair at hcode
    dsimp only at hcode
    split at hcode
    · next hrefused =>
        exact .evidence pool (evidenceTx, issuanceTx) loaded device hpending hbuilt hloaded hrefused
    split at hcode
    · next hrefused =>
        exact .issuance pool (evidenceTx, issuanceTx) loaded device hpending hbuilt hloaded hrefused
    · exact absurd rfl hcode
  · intro h
    cases h with
    | unbuilt pool code hpending hbuilt =>
        simp only [admitReward, hpending, hbuilt]
        rintro rfl
        exact rewardTransactions_ne_ok hbuilt
    | unloaded pool pair status device hpending hbuilt hloaded =>
        simp only [admitReward, hpending, hbuilt, hloaded]
        exact storageCode_error_ne_ok status
    | evidence pool pair loaded device hpending hbuilt hloaded hrefused =>
        simp only [admitReward, hpending, hbuilt, hloaded, submitRewardPair, if_pos hrefused]
        exact pendingCode_ne_ok _
    | issuance pool pair loaded device hpending hbuilt hloaded hrefused =>
        simp only [admitReward, hpending, hbuilt, hloaded, submitRewardPair]
        split
        · exact pendingCode_ne_ok _
        · exact pendingCode_ne_ok _

/-! ## What a request leaves -/

/-- A request that does not fail late either succeeds or leaves the service; one that fails
late has stored another image and reports an error. -/
structure MiningOutcome.Settled (s : MiningService σ) (o : MiningOutcome σ) (late : Prop) :
    Prop where
  kept : ¬late → o.reply.code ≠ some .ok → s.Same o.service
  failed : late → o.reply.code ≠ some .ok ∧ s.Stores o.service

theorem MiningOutcome.Settled.atomic_iff {late : Prop} (h : o.Settled s late) :
    s.FailureAtomic o ↔ ¬late := by
  constructor
  · intro hatomic hlate
    obtain ⟨hcode, hstored⟩ := h.failed hlate
    exact hcode (hatomic.reported hstored)
  · intro hlate
    exact {
      durable := fun hcode => (h.kept hlate hcode).durable
      active := fun hcode => (h.kept hlate hcode).active
      pending := fun hcode => .inl (h.kept hlate hcode).pending
      reported := fun hstored => by_contra fun hcode => hstored (h.kept hlate hcode).durable }

theorem MiningOutcome.Settled.congr {late late' : Prop} (h : o.Settled s late)
    (hiff : late' ↔ late) : o.Settled s late' := by
  rwa [propext hiff]

/-- A service that holds the same data answers with the same effect. -/
theorem MiningOutcome.Settled.of_same {late : Prop} (hsame : s.Same s') (h : o.Settled s' late) :
    o.Settled s late where
  kept hlate hcode := hsame.trans (h.kept hlate hcode)
  failed hlate := by
    obtain ⟨hcode, hstored⟩ := h.failed hlate
    unfold MiningService.Stores at hstored
    rw [hsame.storage, hsame.durable] at hstored
    exact ⟨hcode, hstored⟩

/-- A refusal before the commit. -/
theorem MiningOutcome.Settled.plain (hsame : s.Same s') {code : RpcCode} {late : Prop}
    (hlate : ¬late) : (MiningOutcome.plain code memory s').Settled s late where
  kept _ _ := hsame
  failed h := absurd h hlate

theorem historyOutcome_service : (historyOutcome r memory capacity).service = r.2 := by
  unfold historyOutcome
  split <;> rfl

theorem historyOutcome_code_iff :
    (historyOutcome r memory capacity).reply.code = some .ok ↔ r.1 = .ok ∧ 80 ≤ capacity := by
  unfold historyOutcome
  split
  · next hok =>
      simp only [acceptedReply, RpcReply.answer]
      split
      · next hroom => simp [RpcReply.plain, hroom]
      · next hroom => simp [hok, not_lt.mp hroom]
  · next hcode =>
      have hcode : ¬r.1 = .ok := hcode
      simp [MiningOutcome.plain, RpcReply.plain, hcode]

/-- The reply behind the commit has room for 80 octets or the request fails late. -/
theorem historyOutcome_settled (h : Change s r) :
    (historyOutcome r memory capacity).Settled s (r.1 = .ok ∧ capacity < 80) where
  kept hlate hcode := by
    rw [historyOutcome_service]
    apply h.refused
    intro hok
    exact hcode (historyOutcome_code_iff.mpr ⟨hok, not_lt.mp fun hroom => hlate ⟨hok, hroom⟩⟩)
  failed hlate := by
    rw [historyOutcome_service]
    exact ⟨fun hcode => not_le.mpr hlate.2 (historyOutcome_code_iff.mp hcode).2, h.stored hlate.1⟩

theorem submitBlockEvidence_settled :
    (submitBlockEvidence s v q memory capacity).Settled s
      (s.CommitsBlock v q.payload ∧ capacity < 80) := by
  unfold submitBlockEvidence MiningService.CommitsBlock
  split
  · next hsize =>
      refine .plain (.refl s) ?_
      rintro ⟨⟨hmin, hmax, -⟩, -⟩
      omega
  next hsize =>
  obtain ⟨hmin, hmax⟩ := not_or.mp hsize
  refine (historyOutcome_settled extendHistory_change).congr (and_congr_left fun _ => ?_)
  constructor
  · rintro ⟨-, -, s', hextends⟩
    rw [extendHistory_eq_ok_iff.mpr hextends]
  · intro hok
    exact ⟨not_lt.mp hmin, not_lt.mp hmax, _, extendHistory_eq_ok_iff.mp (Prod.ext hok rfl)⟩

theorem submitHistoryEvidence_settled :
    (submitHistoryEvidence s v q memory capacity).Settled s
      (s.CommitsHistory v q.payload ∧ capacity < 80) := by
  unfold submitHistoryEvidence MiningService.CommitsHistory
  dsimp only
  split
  · next hsize =>
      refine .plain (.refl s) ?_
      rintro ⟨⟨hmin, hcount, -⟩, -⟩
      omega
  next hsize =>
  obtain ⟨hmin, hcount⟩ := not_or.mp hsize
  split
  · next hread =>
      refine .plain (.refl s) ?_
      rintro ⟨⟨-, -, candidate, hcandidate, -⟩, -⟩
      rw [hread] at hcandidate
      cases hcandidate
  next candidate hread =>
  have hcode : RpcCode.rejected ≠ .ok := by simp
  refine (historyOutcome_settled (publishPreferred_change hcode)).congr
    (and_congr_left fun _ => ?_)
  rw [publishPreferred_ok_iff hcode]
  constructor
  · rintro ⟨-, -, candidate', hcandidate, hreplaces⟩
    obtain rfl := Option.some.inj (hread.symm.trans hcandidate)
    exact hreplaces
  · intro hreplaces
    exact ⟨not_lt.mp hmin, hcount, candidate, hread, hreplaces⟩

theorem storageLoad_persisted (c : ChainContext) (d : StorageDevice σ) (room : ℕ) (x : σ) :
    d.persisted (storageLoad c d room x).2 = d.persisted x := by
  have hacquire := d.acquire_persisted x
  unfold storageLoad
  split
  · next status x' hx =>
      rw [hx] at hacquire
      exact hacquire
  · next x' hx =>
      rw [hx] at hacquire
      have hread := (readLocked_spec c d room x').1
      dsimp only
      rw [d.release_persisted, hread, hacquire]

/-- A load leaves the data of the service. -/
theorem MiningService.Same.of_load {room : ℕ} {result : Except StorageStatus StorageView}
    {device : σ} (h : storageLoad s.chain s.storage room s.device = (result, device)) :
    s.Same { s with device } where
  storage := rfl
  durable := by
    have hkept := storageLoad_persisted s.chain s.storage room s.device
    rw [h] at hkept
    exact hkept
  active := rfl
  pending := rfl

theorem submitSuffixEvidence_settled :
    (submitSuffixEvidence s q memory capacity).Settled s
      (s.CommitsSuffix q.payload ∧ capacity < 80) := by
  unfold submitSuffixEvidence MiningService.CommitsSuffix
  dsimp only
  split
  · next hsize =>
      refine .plain (.refl s) ?_
      rintro ⟨⟨hmin, hbase, hcount, -⟩, -⟩
      omega
  next hsize =>
  obtain ⟨hmin, hsize⟩ := not_or.mp hsize
  obtain ⟨hbase, hcount⟩ := not_or.mp hsize
  split
  · next status device hload =>
      refine .plain (.of_load hload) ?_
      rintro ⟨⟨-, -, -, v', device', suffix, hloaded, -⟩, -⟩
      cases hload.symm.trans hloaded
  next v device hload =>
  split
  · next habove =>
      refine .plain (.of_load hload) ?_
      rintro ⟨⟨-, -, -, v', device', suffix, hloaded, hbelow, -⟩, -⟩
      cases hload.symm.trans hloaded
      omega
  next hbelow =>
  split
  · next hread =>
      refine .plain (.of_load hload) ?_
      rintro ⟨⟨-, -, -, v', device', suffix, -, -, hsuffix, -⟩, -⟩
      rw [hread] at hsuffix
      cases hsuffix
  next suffix hread =>
  have hcode : RpcCode.current ≠ .ok := by simp
  refine ((historyOutcome_settled (publishPreferred_change hcode)).congr
    (and_congr_left fun _ => ?_)).of_same (.of_load hload)
  rw [publishPreferred_ok_iff hcode]
  constructor
  · rintro ⟨-, -, -, v', device', suffix', hloaded, -, hsuffix, hreplaces⟩
    obtain ⟨rfl, rfl⟩ : v = v' ∧ device = device' := by
      simpa using hload.symm.trans hloaded
    obtain rfl := Option.some.inj (hread.symm.trans hsuffix)
    exact hreplaces
  · intro hreplaces
    exact ⟨not_lt.mp hmin, hbase, hcount, v, device, suffix, hload, not_lt.mp hbelow, hread,
      hreplaces⟩

theorem stageCommit_settled :
    (stageCommit s v memory capacity).Settled s (s.CommitsStage v ∧ capacity < 80) := by
  unfold stageCommit MiningService.CommitsStage
  split
  · next hincomplete =>
      refine .plain (.refl s) ?_
      rintro ⟨⟨hactive, hreceived, -⟩, -⟩
      simp [hactive, hreceived] at hincomplete
  next hcomplete =>
  obtain ⟨hactive, hreceived⟩ := not_or.mp hcomplete
  have hactive : s.stage.active = true := by simpa using hactive
  have hchange : Change s (commitSuffix s v) ∧ ((commitSuffix s v).1 = .ok ↔
      s.stage.prefixCount ≤ v.blocks.length ∧
        s.Replaces v.state [] (v.blocks.take s.stage.prefixCount ++ s.stage.slots.filterMap id)
          (forkEvaluateSuffix s.chain v.blocks s.stage.prefixCount
            (s.stage.slots.filterMap id))) := by
    have hcode : RpcCode.current ≠ .ok := by simp
    unfold commitSuffix
    dsimp only
    split
    · next habove => exact ⟨.of_same (.refl s) (by simp), by simp [not_le.mpr habove]⟩
    · next hbelow =>
        refine ⟨publishPreferred_change hcode, ?_⟩
        rw [publishPreferred_ok_iff hcode]
        simp [not_lt.mp hbelow]
  have hsettled : (historyOutcome (commitSuffix s v) memory capacity).Settled s _ :=
    historyOutcome_settled hchange.1
  -- Clearing the stage changes none of the data.
  constructor
  · intro hlate hcode
    have hsame := hsettled.kept (fun h => hlate
      ⟨⟨hactive, not_not.mp hreceived, hchange.2.mp h.1⟩, h.2⟩) hcode
    exact ⟨hsame.storage, hsame.durable, hsame.active, hsame.pending⟩
  · rintro ⟨⟨-, -, hcommits⟩, hroom⟩
    exact hsettled.failed ⟨hchange.2.mpr hcommits, hroom⟩

theorem admitReward_persisted {miner : Address} :
    s.storage.persisted (admitReward s miner).2.device = s.storage.persisted s.device := by
  have hload := storageLoad_persisted s.chain s.storage s.workspace.currentCapacity s.device
  unfold admitReward
  split
  · rfl
  split
  · rfl
  split
  · next hloaded =>
      rw [hloaded] at hload
      exact hload
  · next hloaded =>
      rw [hloaded] at hload
      exact hload

/-- The extension by solved work commits before the reward is admitted. -/
theorem extendByWork_settled {submitted : Bytes} {miner : Address} (hroom : 80 ≤ capacity) :
    (historyOutcome (extendByWork s v submitted miner) memory capacity).Settled s
      (∃ s', s.Extends v submitted s' ∧ s'.RefusesReward miner) := by
  have hchange : Change s (extendHistory s v submitted) := extendHistory_change
  obtain ⟨⟨code, s'⟩, hextend⟩ : ∃ r, extendHistory s v submitted = r := ⟨_, rfl⟩
  rw [hextend] at hchange
  have hunique : ∀ t, s.Extends v submitted t → code = .ok ∧ t = s' := by
    intro t ht
    have hpair := hextend.symm.trans (extendHistory_eq_ok_iff.mpr ht)
    exact ⟨(Prod.mk.inj hpair).1, (Prod.mk.inj hpair).2.symm⟩
  by_cases hcode : code = .ok
  · subst hcode
    have hextends : s.Extends v submitted s' := extendHistory_eq_ok_iff.mp hextend
    have hstorage : s'.storage = s.storage := by
      obtain ⟨mask, workspace, -, -, -, rfl⟩ := hextends
      rfl
    have hwork : extendByWork s v submitted miner = admitReward s' miner := by
      simp only [extendByWork, hextend]
    rw [hwork]
    constructor
    · intro hlate hcode
      refine absurd (historyOutcome_code_iff.mpr ⟨?_, hroom⟩) hcode
      by_contra hrefused
      exact hlate ⟨s', hextends, admitReward_ne_ok_iff.mp hrefused⟩
    · rintro ⟨t, ht, hreward⟩
      obtain ⟨-, rfl⟩ := hunique t ht
      refine ⟨fun hcode => admitReward_ne_ok_iff.mpr hreward (historyOutcome_code_iff.mp hcode).1,
        ?_⟩
      have hkept : t.storage.persisted (admitReward t miner).2.device =
          t.storage.persisted t.device := admitReward_persisted
      rw [hstorage] at hkept
      rw [historyOutcome_service, MiningService.Stores, hkept]
      exact hchange.stored rfl
  · have hwork : extendByWork s v submitted miner = (code, s') := by
      unfold extendByWork
      rw [hextend]
      split
      · next hok => exact absurd (Prod.mk.inj hok).1 hcode
      · rfl
    rw [hwork]
    refine (historyOutcome_settled hchange).congr ?_
    constructor
    · rintro ⟨t, ht, -⟩
      exact absurd (hunique t ht).1 hcode
    · rintro ⟨hok, -⟩
      exact absurd hok hcode

theorem submitWork_settled :
    (submitWork s v q memory capacity).Settled s
      (s.LosesReward v q.payload ∧ 80 ≤ capacity) := by
  unfold submitWork MiningService.LosesReward
  split
  · next code hsubmitted =>
      refine .plain (.refl s) ?_
      rintro ⟨⟨submitted, miner, s', hsubmitted', -⟩, -⟩
      rw [hsubmitted] at hsubmitted'
      cases hsubmitted'
  next submitted miner hsubmitted =>
  split
  · next hroom => exact .plain (.refl s) fun hlate => absurd hlate.2 (not_le.mpr hroom)
  next hroom =>
  split
  · next code hverified =>
      refine .plain (.refl s) ?_
      rintro ⟨⟨submitted', miner', s', hsubmitted', hverified', -⟩, -⟩
      obtain ⟨rfl, rfl⟩ := Prod.mk.inj (Except.ok.inj (hsubmitted.symm.trans hsubmitted'))
      rw [hverified] at hverified'
      cases hverified'
  next hverified =>
  refine (extendByWork_settled (not_lt.mp hroom)).congr ?_
  constructor
  · rintro ⟨⟨submitted', miner', s', hsubmitted', -, hextends, hreward⟩, -⟩
    obtain ⟨rfl, rfl⟩ := Prod.mk.inj (Except.ok.inj (hsubmitted.symm.trans hsubmitted'))
    exact ⟨s', hextends, hreward⟩
  · rintro ⟨s', hextends, hreward⟩
    exact ⟨⟨submitted, miner, s', hsubmitted, hverified, hextends, hreward⟩, not_lt.mp hroom⟩

/-- Every branch that can change the history. -/
theorem miningRequest_settled (hmethod : q.ChangesHistory) :
    (miningRequest s v q memory capacity).Settled s (s.LateFailure v q capacity) := by
  unfold MiningService.LateFailure
  rcases hmethod with hmethod | hmethod | hmethod | hmethod | hmethod
  · have hpooled : pooledRequest s v q memory capacity = submitWork s v q memory capacity := by
      simp only [pooledRequest, housekeeping, hmethod, workRequest]
      cases s.pending <;> rfl
    simp only [miningRequest, hmethod, hpooled]
    exact submitWork_settled
  · simp only [miningRequest, hmethod]
    exact submitBlockEvidence_settled
  · simp only [miningRequest, hmethod]
    exact submitHistoryEvidence_settled
  · simp only [miningRequest, hmethod]
    exact submitSuffixEvidence_settled
  · simp only [miningRequest, hmethod]
    exact stageCommit_settled

/-! ## The handler -/

/-- The growth of the snapshot buffer leaves the data of the service. -/
theorem prepareSnapshot_same {result : Except RpcCode Unit}
    (h : prepareSnapshot s = (result, s')) : s.Same s' := by
  have hacquire := s.storage.acquire_persisted s.device
  unfold prepareSnapshot at h
  dsimp only at h
  split at h
  · obtain rfl := (Prod.mk.inj h).2
    exact .refl s
  split at h
  · next hx =>
      rw [hx] at hacquire
      obtain rfl := (Prod.mk.inj h).2
      exact ⟨rfl, hacquire, rfl, rfl⟩
  next device hx =>
  rw [hx] at hacquire
  have hread : s.storage.persisted (s.storage.release (s.storage.read 0 device).2) =
      s.storage.persisted s.device := by
    rw [s.storage.release_persisted, s.storage.read_persisted, hacquire]
  split at h
  · split at h
    all_goals
      obtain rfl := (Prod.mk.inj h).2
      exact ⟨rfl, hread, rfl, rfl⟩
  · split at h
    all_goals
      obtain rfl := (Prod.mk.inj h).2
      exact ⟨rfl, hread, rfl, rfl⟩
  · obtain rfl := (Prod.mk.inj h).2
    exact ⟨rfl, hread, rfl, rfl⟩

theorem loadedRequest_settled (hmethod : q.ChangesHistory) :
    (loadedRequest s q memory capacity).Settled s
      (∃ prepared v device, prepareSnapshot s = (.ok (), prepared) ∧
        storageLoad prepared.chain prepared.storage prepared.snapshotCapacity prepared.device =
          (.ok v, device) ∧
        MiningService.LateFailure { prepared with device } v q capacity) := by
  unfold loadedRequest
  split
  · next code prepared hprepared =>
      refine .plain (prepareSnapshot_same hprepared) ?_
      rintro ⟨prepared', v, device, hprepared', -⟩
      cases hprepared.symm.trans hprepared'
  next prepared hprepared =>
  have hsame := prepareSnapshot_same hprepared
  split
  · next status device hload =>
      refine .plain (hsame.trans (.of_load hload)) ?_
      rintro ⟨prepared', v, device', hprepared', hload', -⟩
      obtain rfl := (Prod.mk.inj (hprepared.symm.trans hprepared')).2
      cases hload.symm.trans hload'
  next v device hload =>
  refine ((miningRequest_settled hmethod).of_same (hsame.trans (.of_load hload))).congr ?_
  constructor
  · rintro ⟨prepared', v', device', hprepared', hload', hlate⟩
    obtain rfl := (Prod.mk.inj (hprepared.symm.trans hprepared')).2
    obtain ⟨rfl, rfl⟩ : v = v' ∧ device = device' := by
      simpa using hload.symm.trans hload'
    exact hlate
  · intro hlate
    exact ⟨prepared, v, device, hprepared, hload, hlate⟩

theorem miningHandle_of_changesHistory (hmethod : q.ChangesHistory)
    (hready : ¬(!s.sha256Selected ∨ s.chain.powPolicy.isNone)) :
    miningHandle s q memory capacity = loadedRequest s q memory capacity := by
  rcases hmethod with hmethod | hmethod | hmethod | hmethod | hmethod
  all_goals simp only [miningHandle, if_neg hready, hmethod]

/-- In every state of a service, a request that can change the history is atomic in its
failure exactly when it does not fail behind its commit. -/
theorem mining_failure_atomic_iff (s : MiningService σ) (q : RpcMessage)
    (hmethod : q.ChangesHistory) (memory : Bytes) (capacity : ℕ) :
    s.FailureAtomic (miningHandle s q memory capacity) ↔ ¬s.FailsLate q capacity := by
  apply MiningOutcome.Settled.atomic_iff
  unfold MiningService.FailsLate
  by_cases hready : !s.sha256Selected ∨ s.chain.powPolicy.isNone
  · rw [miningHandle, if_pos hready]
    refine .plain (.refl s) ?_
    rintro ⟨hselected, hpolicy, -⟩
    rcases hready with hunselected | hnone
    · simp [hselected] at hunselected
    · simp [Option.isNone_iff_eq_none.mp hnone] at hpolicy
  · rw [miningHandle_of_changesHistory hmethod hready]
    obtain ⟨hselected, hpolicy⟩ := not_or.mp hready
    refine (loadedRequest_settled hmethod).congr ?_
    constructor
    · rintro ⟨-, -, hlate⟩
      exact hlate
    · intro hlate
      exact ⟨by simpa using hselected, by simpa [Option.isSome_iff_ne_none] using hpolicy, hlate⟩

end

section Sample

attribute [local instance] Sample.storing

namespace Sample

/-- A request with block evidence. -/
def blockEvidence : RpcMessage :=
  ⟨1, 0x1006, .ok, 7, empty⟩

end Sample

open Sample

/-- Without room for the reply the block is stored and an error is answered. -/
theorem sample_block_evidence_unreported :
    let o := miningHandle mining blockEvidence [] 0
    o.reply.code = some .capacity ∧
      memory.persisted mining.device = some (imageOf [genesis]) ∧
      memory.persisted o.service.device = some (imageOf [genesis, empty]) ∧
      ¬mining.FailureAtomic o := by
  have hcode : (miningHandle mining blockEvidence [] 0).reply.code = some .capacity := by
    decide +kernel
  have hstored : memory.persisted (miningHandle mining blockEvidence [] 0).service.device =
      some (imageOf [genesis, empty]) := by
    decide +kernel
  have hother : some (imageOf [genesis, empty]) ≠ some (imageOf [genesis]) := by
    decide +kernel
  refine ⟨hcode, rfl, hstored, fun hatomic => ?_⟩
  have hreported := hatomic.reported fun hsame => hother (hstored.symm.trans hsame)
  rw [hcode] at hreported
  cases hreported

theorem sample_failure_atomic :
    mining.FailureAtomic (miningHandle mining blockEvidence (List.replicate 80 0) 80) :=
  (mining_failure_atomic_iff mining blockEvidence (.inr (.inl (by decide))) _ 80).mpr (by
    rintro ⟨-, -, prepared, v, device, -, -, hlate⟩
    exact absurd hlate.2 (by decide))

end Sample

end StnChain
