import StnChain.Pending.Admission
import StnChain.Rpc.Message

/-!
# Pairs of pending transactions

A share waits together with the issuance it earns, and the evidence of a solved block
with its own.  The mining handler puts in the first of a pair and then the second, and
takes the first out again when the second is refused (`stn_mining.c`,
`stn_block_reward.c`).  `pending_pool_invariant` is about pools under any sequence of
these and the single operations.
-/

namespace StnChain

variable [Primitives]

/-- The code for an admission of a pair that was refused. -/
def pendingCode : PendingResult → RpcCode
  | .capacity => .capacity
  | .unavailable => .unavailable
  | .provider => .provider
  | _ => .rejected

/-- Remove the transaction an admission added; the admission has written its identifier. -/
def PendingPool.removeAdded (pool : PendingPool) : Option (Octets 32) → PendingPool
  | none => pool
  | some id => (pool.remove id).2

/-- The transaction of an issuance. -/
def issuanceTransaction (r : IssuanceRecord) : Except DataStatus Bytes :=
  match issuanceEncode r with
  | .error status => .error status
  | .ok canonical => transactionEncode ⟨1, .issuance, canonical⟩ issuanceTxSize

/-! ## A share and its issuance -/

/-- The loop of `stn_mining_pending_compensation_lookup`. -/
def pendingDestinations (identity : Address) :
    List PendingEntry → Option Address → Except DataStatus Address
  | [], none => .error .unresolved
  | [], some wallet => .ok wallet
  | e :: entries, selected =>
      match transactionDecode e.transaction with
      | .error _ => .error .content
      | .ok tx =>
          if tx.type ≠ .compensationDestination then
            pendingDestinations identity entries selected
          else
            match compensationDestinationDecode tx.record with
            | .error _ => .error .content
            | .ok d =>
                if d.miningIdentity.identifier ≠ identity.identifier then
                  pendingDestinations identity entries selected
                else if d.miningIdentity.type ≠ .identity ∨ d.wallet.type ≠ .wallet then
                  .error .content
                else if selected.any fun wallet => wallet.identifier ≠ d.wallet.identifier then
                  .error .duplicate
                else pendingDestinations identity entries (some d.wallet)

/-- `stn_mining_pending_compensation_lookup`. -/
def miningPendingCompensationLookup (pool : PendingPool) (identity : Address) :
    Except DataStatus Address :=
  if identity.type ≠ .identity then .error .type
  else pendingDestinations identity pool.entries none

/-- The wallet of a miner, and whether its mapping still waits in the pool. -/
def shareWallet (pool : PendingPool) (compensation : CompensationState) (miner : Address) :
    Except DataStatus (Address × Bool) :=
  match compensationStateLookup compensation miner with
  | .error .unresolved => (miningPendingCompensationLookup pool miner).map (·, true)
  | .error status => .error status
  | .ok wallet => .ok (wallet, false)

/-- What a submission of a share does: its code, the share identifier it wrote to its
reply, and the pool. -/
structure ShareSubmission where
  code : RpcCode
  shareId : Option (Octets 32)
  pool : PendingPool

section Share

variable (c : Option ValidationContext) (active : StorageView) (provider : HashProvider)

/-- The insertion of the issuance of a share. -/
def insertShareIssuance (pool : PendingPool) (transaction : Bytes) (waiting : Bool) :
    PendingResult × PendingPool :=
  if waiting then
    ((pool.insert transaction provider).result, (pool.insert transaction provider).pool)
  else
    let a := sharePendingAdmit pool transaction c active provider
    (a.result, a.pool)

/-- The second half of a submission, behind the share added to the pool. -/
def submitShareIssuance (evidence : ShareEvidence) (shareId : Octets 32) (pool : PendingPool)
    (added : Option (Octets 32)) : RpcCode × PendingPool :=
  match shareWallet pool active.state.compensation evidence.miner with
  | .error .unresolved => (.unavailable, pool.removeAdded added)
  | .error .capacity | .error .overflow => (.capacity, pool.removeAdded added)
  | .error _ => (.rejected, pool.removeAdded added)
  | .ok (wallet, waiting) =>
      if wallet.type ≠ .wallet then (.rejected, pool.removeAdded added)
      else
        match issuanceTransaction
            ⟨issuanceReasonShare, issuanceShareUnits, shareId, ⟨evidence.miner, wallet⟩⟩ with
        | .error _ => (.provider, pool.removeAdded added)
        | .ok transaction =>
            match insertShareIssuance c active provider pool transaction waiting with
            | (.accepted, pool) | (.duplicate, pool) => (.ok, pool)
            | (result, pool) => (pendingCode result, pool.removeAdded added)

/-- What SUBMIT_SHARE does with verified evidence. -/
def submitSharePair (evidence : ShareEvidence) (pool : PendingPool) : ShareSubmission :=
  match shareEncode evidence with
  | .error _ => ⟨.provider, none, pool⟩
  | .ok canonical =>
      match transactionEncode ⟨1, .shareEvidence, canonical⟩
          (txHeaderSize + shareCanonicalSize) with
      | .error _ => ⟨.provider, none, pool⟩
      | .ok transaction =>
          let a := sharePendingAdmit pool transaction c active provider
          if a.result ≠ .accepted then ⟨pendingCode a.result, none, a.pool⟩
          else
            match shareId evidence with
            | .error _ => ⟨.provider, none, a.pool.removeAdded a.id⟩
            | .ok id =>
                let r := submitShareIssuance c active provider evidence id a.pool a.id
                ⟨r.1, some id, r.2⟩

end Share

/-! ## The reward of a block -/

/-- `stn_block_reward_build`. -/
def blockRewardBuild (blockId : Octets 32) (miner : Address) (compensation : CompensationState) :
    Except DataStatus (BlockCompensationEvidence × IssuanceRecord) :=
  if miner.type ≠ .identity then .error .type
  else if blockId = 0 then .error .content
  else
    match compensationStateLookup compensation miner with
    | .error status => .error status
    | .ok wallet =>
        if wallet.type ≠ .wallet then .error .type
        else
          match blockCompensationId ⟨blockId, miner⟩ with
          | .error status => .error status
          | .ok id =>
              .ok (⟨blockId, miner⟩, ⟨issuanceReasonBlock, issuanceBlockUnits, id, ⟨miner, wallet⟩⟩)

/-- `stn_block_reward_encode_transactions`. -/
def blockRewardEncodeTransactions (evidence : BlockCompensationEvidence)
    (issuance : IssuanceRecord) : Except DataStatus (Bytes × Bytes) :=
  match blockCompensationEncode evidence with
  | .error status => .error status
  | .ok canonical =>
      match transactionEncode ⟨1, .blockCompensationEvidence, canonical⟩
          (txHeaderSize + blockCompensationCanonicalSize) with
      | .error status => .error status
      | .ok evidenceTx =>
          match issuanceTransaction issuance with
          | .error status => .error status
          | .ok issuanceTx => .ok (evidenceTx, issuanceTx)

/-- What SUBMIT_WORK does with the transactions of a reward. -/
def submitRewardPair (c : Option ValidationContext) (active : StorageView)
    (provider : HashProvider) (evidenceTx issuanceTx : Bytes) (pool : PendingPool) :
    RpcCode × PendingPool :=
  let first := sharePendingAdmit pool evidenceTx c active provider
  if first.result ≠ .accepted ∧ first.result ≠ .duplicate then
    (pendingCode first.result, first.pool)
  else
    let second := sharePendingAdmit first.pool issuanceTx c active provider
    if second.result ≠ .accepted ∧ second.result ≠ .duplicate then
      (pendingCode second.result,
        if first.result = .accepted then second.pool.removeAdded first.id else second.pool)
    else (.ok, second.pool)

/-! ## Pairs go in together or not at all -/

variable {pool pool' : PendingPool} {c : Option ValidationContext} {active : StorageView}
  {provider : HashProvider}

/-- A pair leaves the pool sound, and unchanged unless its code is that of success. -/
structure Atomic (provider : HashProvider) (pool : PendingPool) (code : RpcCode)
    (pool' : PendingPool) : Prop where
  sound : pool'.Sound provider
  unchanged : code ≠ .ok → pool' = pool

omit [Primitives] in
theorem pendingCode_ne_ok (result : PendingResult) : pendingCode result ≠ .ok := by
  cases result <;> simp [pendingCode]

theorem Atomic.refl (hpool : pool.Sound provider) {code : RpcCode} :
    Atomic provider pool code pool :=
  ⟨hpool, fun _ => rfl⟩

theorem Atomic.of_sound (hpool : pool'.Sound provider) : Atomic provider pool .ok pool' :=
  ⟨hpool, fun h => absurd rfl h⟩

/-- Taking out what was added last restores the pool. -/
theorem removeAdded_of_grown (hpool : pool.Sound provider) {id : Option (Octets 32)}
    (h : PendingPool.Grown provider pool id pool') : pool'.removeAdded id = pool := by
  have hgrown := h
  obtain ⟨e, -, -, rfl⟩ := h
  simp [PendingPool.removeAdded, hgrown.remove hpool]

theorem insertShareIssuance_settles (transaction : Bytes) (waiting : Bool) :
    ∃ id, PendingPool.Settles provider pool
      (insertShareIssuance c active provider pool transaction waiting).1 id
      (insertShareIssuance c active provider pool transaction waiting).2 := by
  unfold insertShareIssuance
  split
  · exact ⟨_, PendingPool.insert_settles pool transaction provider⟩
  · exact ⟨_, sharePendingAdmit_settles⟩

theorem submitShareIssuance_atomic (hpool : pool.Sound provider) {added : Option (Octets 32)}
    (hadded : PendingPool.Grown provider pool added pool') {evidence : ShareEvidence}
    {shareId : Octets 32} :
    Atomic provider pool
      (submitShareIssuance c active provider evidence shareId pool' added).1
      (submitShareIssuance c active provider evidence shareId pool' added).2 := by
  have hremoved : pool'.removeAdded added = pool := removeAdded_of_grown hpool hadded
  unfold submitShareIssuance
  rw [hremoved]
  split
  · exact Atomic.refl hpool
  · exact Atomic.refl hpool
  · exact Atomic.refl hpool
  · exact Atomic.refl hpool
  split
  · exact Atomic.refl hpool
  split
  · exact Atomic.refl hpool
  next wallet waiting _ _ _ transaction _ =>
  obtain ⟨id, hsettles⟩ : ∃ id, PendingPool.Settles provider pool'
      (insertShareIssuance c active provider pool' transaction waiting).1 id
      (insertShareIssuance c active provider pool' transaction waiting).2 :=
    insertShareIssuance_settles transaction waiting
  have hsound := hsettles.sound (hadded.sound hpool)
  split
  · next hinsert =>
      rw [hinsert] at hsound
      exact Atomic.of_sound hsound
  · next hinsert =>
      rw [hinsert] at hsound
      exact Atomic.of_sound hsound
  · next result pool'' haccepted _ hinsert =>
      rw [hinsert] at hsettles
      have hkept : pool'' = pool' := by
        apply hsettles.of_ne
        rintro rfl
        exact haccepted rfl
      rw [hkept, hremoved]
      exact Atomic.refl hpool

/-- A share is submitted with its issuance or the pool is left alone. -/
theorem submitSharePair_atomic (hpool : pool.Sound provider) (evidence : ShareEvidence) :
    Atomic provider pool (submitSharePair c active provider evidence pool).code
      (submitSharePair c active provider evidence pool).pool := by
  unfold submitSharePair
  split
  · exact Atomic.refl hpool
  split
  · exact Atomic.refl hpool
  next transaction _ =>
  have hsettles : (sharePendingAdmit pool transaction c active provider).Settles provider pool :=
    sharePendingAdmit_settles
  dsimp only
  split
  · next hrefused =>
      rw [hsettles.of_ne hrefused]
      exact Atomic.refl hpool
  next haccepted =>
  have hgrown := hsettles.grown (not_not.mp haccepted)
  split
  · rw [removeAdded_of_grown hpool hgrown]
    exact Atomic.refl hpool
  · exact submitShareIssuance_atomic hpool hgrown

/-- The transactions of a reward go in together or the pool is left alone. -/
theorem submitRewardPair_atomic (hpool : pool.Sound provider) (evidenceTx issuanceTx : Bytes) :
    Atomic provider pool (submitRewardPair c active provider evidenceTx issuanceTx pool).1
      (submitRewardPair c active provider evidenceTx issuanceTx pool).2 := by
  have hfirst : (sharePendingAdmit pool evidenceTx c active provider).Settles provider pool :=
    sharePendingAdmit_settles
  have hsecond : (sharePendingAdmit (sharePendingAdmit pool evidenceTx c active provider).pool
      issuanceTx c active provider).Settles provider
        (sharePendingAdmit pool evidenceTx c active provider).pool :=
    sharePendingAdmit_settles
  unfold submitRewardPair
  dsimp only
  split
  · next hrefused =>
      rw [hfirst.of_ne hrefused.1]
      exact Atomic.refl hpool
  split
  · next hrefused =>
      rw [hsecond.of_ne hrefused.1]
      split
      · next haccepted =>
          rw [removeAdded_of_grown hpool (hfirst.grown haccepted)]
          exact Atomic.refl hpool
      · next hduplicate =>
          rw [hfirst.of_ne hduplicate]
          exact Atomic.refl hpool
  · exact Atomic.of_sound (hsecond.sound (hfirst.sound hpool))

/-! ## Any sequence of operations -/

/-- An operation on the pool with its arguments; the pairs are those of SUBMIT_SHARE and
SUBMIT_WORK. -/
inductive PoolCall
  | insert (bytes : Bytes)
  | remove (id : Octets 32)
  | prune (mask : List Bool)
  | report (record : Bytes) (c : Option ValidationContext) (active : StorageView)
  | admitTransaction (bytes : Bytes) (c : Option ValidationContext) (active : StorageView)
  | admitBlockCompensation (bytes : Bytes) (c : Option ValidationContext) (active : StorageView)
  | admitShare (bytes : Bytes) (c : Option ValidationContext) (active : StorageView)
  | sharePair (evidence : ShareEvidence) (c : Option ValidationContext) (active : StorageView)
  | rewardPair (evidenceTx issuanceTx : Bytes) (c : Option ValidationContext)
      (active : StorageView)

/-- An admission by whether it accepts and the pool it leaves. -/
def Admission.step (a : Admission) : Bool × PendingPool :=
  (a.result = .accepted, a.pool)

/-- Whether an operation accepts, and the pool it leaves. -/
def PoolCall.run (provider : HashProvider) (pool : PendingPool) : PoolCall → Bool × PendingPool
  | .insert bytes =>
      ((pool.insert bytes provider).result = .accepted, (pool.insert bytes provider).pool)
  | .remove id => ((pool.remove id).1 = .accepted, (pool.remove id).2)
  | .prune mask => (true, pool.prune mask)
  | .report record c active => (pendingAdmit pool record c active provider).step
  | .admitTransaction bytes c active =>
      (pendingAdmitTransaction pool bytes active provider c).step
  | .admitBlockCompensation bytes c active =>
      (blockCompensationPendingAdmit pool bytes c active provider).step
  | .admitShare bytes c active => (sharePendingAdmit pool bytes c active provider).step
  | .sharePair evidence c active =>
      ((submitSharePair c active provider evidence pool).code = .ok,
        (submitSharePair c active provider evidence pool).pool)
  | .rewardPair evidenceTx issuanceTx c active =>
      ((submitRewardPair c active provider evidenceTx issuanceTx pool).1 = .ok,
        (submitRewardPair c active provider evidenceTx issuanceTx pool).2)

/-- The pool a sequence of operations makes of the empty one. -/
def poolRun (provider : HashProvider) (calls : List PoolCall) : PendingPool :=
  calls.foldl (fun pool call => (call.run provider pool).2) PendingPool.empty

/-- A step leaves the pool sound, and unchanged when it does not accept. -/
structure StepSound (provider : HashProvider) (pool : PendingPool) (step : Bool × PendingPool) :
    Prop where
  sound : step.2.Sound provider
  unchanged : step.1 = false → step.2 = pool

theorem Admission.Settles.stepSound {a : Admission} (h : a.Settles provider pool)
    (hpool : pool.Sound provider) : StepSound provider pool a.step := by
  constructor
  · exact PendingPool.Settles.sound h hpool
  · intro hrefused
    exact PendingPool.Settles.of_ne h (of_decide_eq_false hrefused)

theorem Atomic.stepSound {code : RpcCode} (h : Atomic provider pool code pool') :
    StepSound provider pool (code = .ok, pool') :=
  ⟨h.sound, fun hrefused => h.unchanged (of_decide_eq_false hrefused)⟩

theorem PoolCall.run_sound (hpool : pool.Sound provider) (call : PoolCall) :
    StepSound provider pool (call.run provider pool) := by
  cases call with
  | insert bytes =>
      have hsettles := PendingPool.insert_settles pool bytes provider
      constructor
      · exact hsettles.sound hpool
      · intro hrefused
        exact hsettles.of_ne (of_decide_eq_false hrefused)
  | remove id =>
      constructor
      · exact hpool.remove id
      · intro hrefused
        exact PendingPool.remove_of_ne (of_decide_eq_false hrefused)
  | prune mask => exact ⟨hpool.prune mask, by simp [PoolCall.run]⟩
  | report record c active => exact pendingAdmit_settles.stepSound hpool
  | admitTransaction bytes c active => exact pendingAdmitTransaction_settles.stepSound hpool
  | admitBlockCompensation bytes c active =>
      exact blockCompensationPendingAdmit_settles.stepSound hpool
  | admitShare bytes c active => exact sharePendingAdmit_settles.stepSound hpool
  | sharePair evidence c active => exact (submitSharePair_atomic hpool evidence).stepSound
  | rewardPair evidenceTx issuanceTx c active =>
      exact (submitRewardPair_atomic hpool evidenceTx issuanceTx).stepSound

/-- Every pool reached from the empty one is sound. -/
theorem poolRun_sound (provider : HashProvider) (calls : List PoolCall) :
    (poolRun provider calls).Sound provider := by
  induction calls using List.reverseRecOn with
  | nil => exact PendingPool.empty_sound
  | append_singleton calls call ih =>
      have hstep := PoolCall.run_sound ih call
      simpa [poolRun] using hstep.sound

/-- After any sequence of operations the entries are strictly sorted and within bounds, the
byte total is the sum of their lengths, and each carries its own identifier; an operation
that does not accept then leaves the pool as it is. -/
theorem pending_pool_invariant (provider : HashProvider) (calls : List PoolCall) :
    let pool := poolRun provider calls
    pool.entries.Pairwise (fun e e' => e.id < e'.id) ∧
      pool.entries.length ≤ pendingMaxEntries ∧
      pool.bytes = (pool.entries.map fun e => e.transaction.length).sum ∧
      pool.bytes ≤ pendingMaxBytes ∧
      (∀ e ∈ pool.entries, transactionId e.transaction provider = .ok e.id) ∧
      ∀ call : PoolCall, (call.run provider pool).1 = false →
        (call.run provider pool).2 = pool := by
  have hpool := poolRun_sound provider calls
  refine ⟨?_, hpool.rows, hpool.tally, hpool.bounded, fun e he => (hpool.formed e he).id, ?_⟩
  · exact hpool.sorted.imp fun h => BitVec.lt_def.mpr h
  · intro call hrefused
    exact (PoolCall.run_sound hpool call).unchanged hrefused

end StnChain
