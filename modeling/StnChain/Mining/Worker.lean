import StnChain.Mining.Search
import StnChain.Mining.StorageUses

/-!
# The worker of the internal miner

`stn_internal_miner_worker_step` fetches a template, tests some of its nonces and submits what
it finds (`stn_internal_miner.c`).  Both ends go through the handler that answers external
miners, by the local requests of `stn_mining.c`.  `worker_extends` says what a step makes of
the stored history.
-/

namespace StnChain

section

variable [Primitives] {σ : Type}

/-! ## Local requests -/

/-- A request the process makes to its own service. -/
def localRequest (method : UInt16) (payload : Bytes) : RpcMessage :=
  ⟨1, method, .ok, 0, payload⟩

/-- `stn_mining_template_local`. -/
def miningTemplateLocal (s : MiningService σ) (memory : Bytes) (capacity : ℕ) : MiningOutcome σ :=
  miningHandle s (localRequest 0x2002 []) memory capacity

/-- The identity of a miner as a request carries it. -/
def localIdentity (miner : Address) : Option Bytes :=
  match addressEncode miner addressTextCapacity with
  | .error _ => none
  | .ok identity => if identity.length = rpcMinerIdentitySize then some identity else none

/-- `stn_mining_submit_share_local`: the code, the identifier of the share and the service. -/
def miningSubmitShareLocal (s : MiningService σ) (evidence : ShareEvidence) (response : Bytes) :
    Option RpcCode × Option (Octets 32) × MiningService σ :=
  match localIdentity evidence.miner with
  | none => (some .invalid, none, s)
  | some identity =>
      let payload := octetBytes evidence.workId ++ identity ++
        wireWrite 8 evidence.nonce.toNat ++ octetBytes evidence.templateHeader
      let o := miningHandle s (localRequest 0x2004 payload) response 32
      (o.reply.code,
        if o.reply.code = some .ok ∧ o.reply.written = 32 then some (octetsAt o.reply.memory 0 32)
        else none,
        o.service)

/-- `stn_mining_submit_work_local`. -/
def miningSubmitWorkLocal (s : MiningService σ) (miner : Address) (parent workId : Octets 32)
    (block response : Bytes) : Option RpcCode × MiningService σ :=
  if block.length < blockHeaderSize ∨ block.length > blockMaxSize then (some .invalid, s)
  else
    match localIdentity miner with
    | none => (some .invalid, s)
    | some identity =>
        let payload := octetBytes parent ++ octetBytes workId ++ wireWrite 4 block.length ++
          identity ++ block
        let o := miningHandle s (localRequest 0x2003 payload) response 80
        (o.reply.code, o.service)

/-! ## Steps -/

/-- `stn_internal_miner_worker`, apart from its service. -/
structure MinerWorker where
  miner : Address
  nextNonce : UInt64
  nonceBudget : UInt64
  dutyPermille : ℕ

/-- What a step leaves. -/
structure WorkerOutcome (σ : Type) where
  status : Except DataStatus InternalMinerResult
  worker : MinerWorker
  service : MiningService σ

/-- `STN_MINING_PREFIX`. -/
def miningPrefix : ℕ := 68

/-- The status for a template that is not answered. -/
def templateStatus (code : Option RpcCode) : DataStatus :=
  if code = some .unavailable ∨ code = some .stale then .unresolved else .content

/-- A template with a nonce in its header. -/
def solvedTemplate (template : Bytes) (nonce : UInt64) : Option Bytes :=
  match blockHeaderDecode (template.take blockHeaderSize) with
  | .error _ => none
  | .ok header =>
      match blockHeaderEncode { header with reservedWorkNonce := nonce } blockHeaderSize with
      | .error _ => none
      | .ok bytes =>
          if bytes.length ≠ blockHeaderSize then none
          else some (bytes ++ template.drop blockHeaderSize)

/-- The end of a step that found a share. -/
def workerSubmitShare (w : MinerWorker) (s : MiningService σ) (evidence : ShareEvidence)
    (response : Bytes) : WorkerOutcome σ :=
  match miningSubmitShareLocal s evidence response with
  | (code, _, s) =>
      if code = some .stale then ⟨.error .unresolved, { w with nextNonce := 0 }, s⟩
      else if code ≠ some .ok then ⟨.error .content, w, s⟩
      else ⟨.ok .share, w, s⟩

/-- The end of a step that solved the template. -/
def workerSubmitBlock (w : MinerWorker) (s : MiningService σ) (parent : Octets 32)
    (template : Bytes) (evidence : ShareEvidence) (response : Bytes) : WorkerOutcome σ :=
  match solvedTemplate template evidence.nonce with
  | none => ⟨.error .content, w, s⟩
  | some block =>
      match miningSubmitWorkLocal s w.miner parent evidence.workId block response with
      | (code, s) =>
          if code = some .stale then ⟨.error .unresolved, { w with nextNonce := 0 }, s⟩
          else if code ≠ some .ok then ⟨.error .content, w, s⟩
          else ⟨.ok .block, { w with nextNonce := 0 }, s⟩

/-- The part of a step behind the template, which stands in `memory`. -/
def workerSearch (w : MinerWorker) (s : MiningService σ) (memory : Bytes) (length : ℕ)
    (response : Bytes) : WorkerOutcome σ :=
  match internalMinerSearch (octetsAt memory miningPrefix blockHeaderSize)
    (octetsAt memory 32 32) w.miner w.nextNonce w.nonceBudget w.dutyPermille
    s.chain.hashProvider with
  | .error status => ⟨.error status, w, s⟩
  | .ok found =>
      let searched := { w with nextNonce := found.nextNonce }
      match found.evidence with
      | none =>
          ⟨.ok found.result,
            if found.result = .exhausted then { w with nextNonce := 0 } else searched, s⟩
      | some evidence =>
          if found.result = .block then
            workerSubmitBlock searched s (octetsAt memory 0 32)
              ((memory.drop miningPrefix).take length) evidence response
          else workerSubmitShare searched s evidence response

/-- `stn_internal_miner_worker_step`; the buffers hold what they held before the step. -/
def minerWorkerStep (w : MinerWorker) (s : MiningService σ) (memory response : Bytes) :
    WorkerOutcome σ :=
  if w.miner.type ≠ .identity then ⟨.error .type, w, s⟩
  else if w.dutyPermille = 0 ∨ w.dutyPermille > internalMinerMaxDutyPermille ∨ w.nonceBudget = 0
  then ⟨.error .content, w, s⟩
  else
    let o := miningTemplateLocal s memory (miningPrefix + blockMaxSize)
    if o.reply.code ≠ some .ok then ⟨.error (templateStatus o.reply.code), w, o.service⟩
    else if o.reply.written < miningPrefix + blockHeaderSize then ⟨.error .content, w, o.service⟩
    else
      let length := wireRead o.reply.memory 64 4
      if length < blockHeaderSize ∨ length > blockMaxSize ∨
          o.reply.written ≠ miningPrefix + length then ⟨.error .content, w, o.service⟩
      else workerSearch w o.service o.reply.memory length response

/-! ## What a step stores -/

variable {s s' : MiningService σ} {v : StorageView} {q : RpcMessage} {memory response : Bytes}
  {capacity : ℕ} {w : MinerWorker}

/-- An appended block makes a coherent service that of a longer history with more work. -/
theorem MiningService.Coherent.extends (h : s.Coherent v) {bytes : Bytes}
    (hextends : s.Extends v bytes s') :
    s'.Coherent ⟨v.blocks ++ [bytes], s'.active⟩ ∧
      v.state.cumulativeWork.toNat < s'.active.cumulativeWork.toNat := by
  obtain ⟨mask, workspace, -, -, hstatus, rfl⟩ := hextends
  obtain ⟨image, blocks, himage, hdecode, ⟨stored, v', hstored', hdecode', rfl⟩, hpublishes⟩ :=
    (storageExtend_atomic bytes workspace).done hstatus
  obtain ⟨stored', hstored, hview⟩ := h.stored
  obtain rfl := Option.some.inj (hstored.symm.trans hstored')
  obtain rfl := Except.ok.inj (hview.symm.trans hdecode')
  exact ⟨⟨⟨image, himage, hdecode⟩, rfl⟩, hpublishes.work stored' v hstored hview⟩

theorem admitReward_coherent {miner : Address} (h : s.Coherent v) :
    (admitReward s miner).2.Coherent v ∧ (admitReward s miner).2.active = s.active := by
  unfold admitReward
  split
  · exact ⟨h, rfl⟩
  split
  · exact ⟨h, rfl⟩
  split
  · next hload => exact ⟨h.of_load hload, rfl⟩
  · next hload =>
      obtain ⟨hstored, hactive⟩ := h.of_load hload
      exact ⟨⟨hstored, hactive⟩, rfl⟩

/-- The stored history is a longer one: it ends with a block, and its work has grown. -/
def MiningService.Appended (s : MiningService σ) (v : StorageView) (bytes : Bytes) : Prop :=
  ∃ v', s.Coherent v' ∧ v'.blocks = v.blocks ++ [bytes] ∧
    v.state.cumulativeWork.toNat < v'.state.cumulativeWork.toNat

omit [Primitives] in
theorem submittedWork_spec {payload : Bytes} :
    submittedWork v payload ≠ .error .ok ∧
      ∀ submitted miner, submittedWork v payload = .ok (submitted, miner) →
        submitted = payload.drop rpcMiningSubmissionPrefix := by
  unfold submittedWork
  dsimp only
  split
  · simp
  split
  · simp
  split
  · simp
  split
  · simp
  · refine ⟨by simp, fun submitted miner h => ?_⟩
    exact (Prod.mk.inj (Except.ok.inj h)).1.symm

theorem verifyWork_ne_ok {c : ChainContext} {payload submitted : Bytes} :
    verifyWork c payload submitted ≠ .error .ok := by
  unfold verifyWork
  split
  · simp
  split
  · simp
  · split
    · simp
    · simp

/-- What a request for solved work makes of the stored history: an answer of OK appends its
block, and any other one appends it too or leaves the history. -/
structure WorkOutcome (v : StorageView) (block : Bytes) (o : MiningOutcome σ) : Prop where
  accepted : o.reply.code = some .ok → o.service.Appended v block
  settled : o.service.Coherent v ∨ o.service.Appended v block

theorem WorkOutcome.refused {block : Bytes} (h : s.Coherent v) {code : RpcCode}
    (hcode : code ≠ .ok) : WorkOutcome v block (.plain code memory s) where
  accepted hok := absurd (Option.some.inj hok) hcode
  settled := .inl h

theorem extendByWork_outcome (h : s.Coherent v) {block : Bytes} {miner : Address} :
    WorkOutcome v block (historyOutcome (extendByWork s v block miner) memory capacity) := by
  obtain ⟨⟨code, s'⟩, hextend⟩ : ∃ r, extendHistory s v block = r := ⟨_, rfl⟩
  by_cases hcode : code = .ok
  · subst hcode
    obtain ⟨hcoherent, hwork⟩ := h.extends (extendHistory_eq_ok_iff.mp hextend)
    obtain ⟨hadmitted, -⟩ := admitReward_coherent hcoherent
    have hrun : extendByWork s v block miner = admitReward s' miner := by
      simp only [extendByWork, hextend]
    have happended : (historyOutcome (extendByWork s v block miner) memory
        capacity).service.Appended v block := by
      rw [historyOutcome_service, hrun]
      exact ⟨_, hadmitted, rfl, hwork⟩
    exact ⟨fun _ => happended, .inr happended⟩
  · have hrun : extendByWork s v block miner = (code, s') := by
      unfold extendByWork
      rw [hextend]
      split
      · next hok => exact absurd (Prod.mk.inj hok).1 hcode
      · rfl
    have hchange : Change s (code, s') := by
      rw [← hextend]
      exact extendHistory_change
    have hrefines : s.Refines s' := by
      have hextended : s.Refines (extendHistory s v block).2 := extendHistory_refines h
      rwa [hextend] at hextended
    rw [hrun]
    constructor
    · intro hok
      exact absurd (historyOutcome_code_iff.mp hok).1 hcode
    · left
      rw [historyOutcome_service]
      exact h.of_same hrefines.chain (hchange.refused hcode)

theorem submitWork_outcome (h : s.Coherent v) :
    WorkOutcome v (q.payload.drop rpcMiningSubmissionPrefix)
      (submitWork s v q memory capacity) := by
  obtain ⟨hne, hsubmitted⟩ := submittedWork_spec (v := v)
  unfold submitWork
  split
  · next code hcode =>
      rw [hcode] at hne
      exact .refused h fun hok => hne (congrArg _ hok)
  next submitted miner hread =>
  obtain rfl := hsubmitted submitted miner hread
  split
  · exact .refused h (by simp)
  split
  · next code hcode => exact .refused h fun hok => verifyWork_ne_ok (hok ▸ hcode)
  · exact extendByWork_outcome h

variable (memory capacity) in
/-- A request for solved work, through the handler. -/
theorem handleWork_outcome (h : s.Coherent v) (hmethod : q.methodOf = some .submitWork) :
    WorkOutcome v (q.payload.drop rpcMiningSubmissionPrefix)
      (miningHandle s q memory capacity) := by
  have hwork (s : MiningService σ) (v : StorageView) :
      miningRequest s v q memory capacity = submitWork s v q memory capacity := by
    simp only [miningRequest, hmethod, pooledRequest, housekeeping, workRequest]
    cases s.pending <;> rfl
  unfold miningHandle
  simp only [hmethod]
  split
  · exact .refused h (by simp)
  unfold loadedRequest
  split
  · next hprepared =>
      exact .refused (h.prepared hprepared) fun hok => prepareSnapshot_ne_ok (hok ▸ hprepared)
  next prepared hprepared =>
  have hcoherent := h.prepared hprepared
  split
  · next hload => exact .refused (hcoherent.of_load hload) (storageCode_error_ne_ok _)
  · next loaded device hload =>
      obtain rfl := hcoherent.loaded hload
      rw [hwork]
      exact submitWork_outcome (hcoherent.of_load hload)

theorem miningSubmitShareLocal_coherent (h : s.Coherent v) (evidence : ShareEvidence)
    (response : Bytes) : (miningSubmitShareLocal s evidence response).2.2.Coherent v := by
  unfold miningSubmitShareLocal
  split
  · exact h
  · exact h.unchanged (RpcMessage.not_changesHistory .submitShare rfl (by decide))

theorem miningSubmitWorkLocal_spec (h : s.Coherent v) (miner : Address) (parent workId : Octets 32)
    (block response : Bytes) :
    ((miningSubmitWorkLocal s miner parent workId block response).1 = some .ok →
      (miningSubmitWorkLocal s miner parent workId block response).2.Appended v block) ∧
    ((miningSubmitWorkLocal s miner parent workId block response).2.Coherent v ∨
      (miningSubmitWorkLocal s miner parent workId block response).2.Appended v block) := by
  unfold miningSubmitWorkLocal
  split
  · exact ⟨by simp, .inl h⟩
  split
  · exact ⟨by simp, .inl h⟩
  next identity hidentity =>
  have hsize : identity.length = rpcMinerIdentitySize := by
    unfold localIdentity at hidentity
    split at hidentity
    · cases hidentity
    · split at hidentity
      · next hsize =>
          obtain rfl := Option.some.inj hidentity
          exact hsize
      · cases hidentity
  have hblock : (localRequest 0x2003 (octetBytes parent ++ octetBytes workId ++
      wireWrite 4 block.length ++ identity ++ block)).payload.drop rpcMiningSubmissionPrefix =
        block := by
    apply List.drop_left'
    simp [hsize, rpcMinerIdentitySize, rpcMiningSubmissionPrefix]
  have houtcome := handleWork_outcome response 80
    (q := localRequest 0x2003 (octetBytes parent ++ octetBytes workId ++
      wireWrite 4 block.length ++ identity ++ block)) h rfl
  rw [hblock] at houtcome
  exact ⟨houtcome.accepted, houtcome.settled⟩

/-- The template in the memory of a reply. -/
def servedTemplate (memory : Bytes) : Bytes :=
  (memory.drop miningPrefix).take (wireRead memory 64 4)

/-- A block is the template that a service serves, with a nonce in its header. -/
def MiningService.SolvedBy (s : MiningService σ) (memory block : Bytes) : Prop :=
  ∃ nonce, solvedTemplate (servedTemplate
    (miningTemplateLocal s memory (miningPrefix + blockMaxSize)).reply.memory) nonce = some block

/-- What a step makes of the stored history: it appends a solved template where it reports a
block, leaves the history where it reports anything else, and where it fails has done one or
the other. -/
structure WorkerEffect (v : StorageView) (solved : Bytes → Prop) (o : WorkerOutcome σ) : Prop where
  block : o.status = .ok .block → ∃ block, solved block ∧ o.service.Appended v block
  other : ∀ r, o.status = .ok r → r ≠ .block → o.service.Coherent v
  settled : o.service.Coherent v ∨ ∃ block, solved block ∧ o.service.Appended v block

theorem WorkerEffect.refused {solved : Bytes → Prop} (h : s.Coherent v) (status : DataStatus)
    (w : MinerWorker) : WorkerEffect v solved ⟨.error status, w, s⟩ where
  block hok := by cases hok
  other _ hok := by cases hok
  settled := .inl h

theorem WorkerEffect.reported {solved : Bytes → Prop} (h : s.Coherent v)
    {result : InternalMinerResult} (hresult : result ≠ .block) (w : MinerWorker) :
    WorkerEffect v solved ⟨.ok result, w, s⟩ where
  block hok := absurd (Except.ok.inj hok) hresult
  other _ _ _ := h
  settled := .inl h

theorem workerSubmitShare_effect {solved : Bytes → Prop} (h : s.Coherent v)
    (evidence : ShareEvidence) :
    WorkerEffect v solved (workerSubmitShare w s evidence response) := by
  have hcoherent := miningSubmitShareLocal_coherent h evidence response
  unfold workerSubmitShare
  dsimp only
  split
  · exact .refused hcoherent _ _
  split
  · exact .refused hcoherent _ _
  · exact .reported hcoherent (by decide) _

theorem workerSubmitBlock_effect (h : s.Coherent v) (parent : Octets 32) (template : Bytes)
    (evidence : ShareEvidence) :
    WorkerEffect v (fun block => ∃ nonce, solvedTemplate template nonce = some block)
      (workerSubmitBlock w s parent template evidence response) := by
  unfold workerSubmitBlock
  split
  · exact .refused h _ _
  next block hblock =>
  obtain ⟨haccepted, hsettled⟩ :=
    miningSubmitWorkLocal_spec h w.miner parent evidence.workId block response
  have hsettled : (miningSubmitWorkLocal s w.miner parent evidence.workId block
      response).2.Coherent v ∨ ∃ block', (∃ nonce, solvedTemplate template nonce = some block') ∧
        (miningSubmitWorkLocal s w.miner parent evidence.workId block response).2.Appended v
          block' := by
    rcases hsettled with hkept | happended
    · exact .inl hkept
    · exact .inr ⟨block, ⟨evidence.nonce, hblock⟩, happended⟩
  dsimp only
  split
  · exact ⟨by simp, by simp, hsettled⟩
  split
  · exact ⟨by simp, by simp, hsettled⟩
  · next hok =>
      refine ⟨fun _ => ⟨block, ⟨evidence.nonce, hblock⟩, haccepted (not_not.mp hok)⟩, ?_, hsettled⟩
      intro r hr hne
      exact absurd (Except.ok.inj hr).symm hne

omit [Primitives] in
/-- A search that solves its template has evidence. -/
theorem internalMinerLoop_block {m : MinerSearch} {provider : HashProvider} {budget : ℕ}
    {nonce : UInt64} {found : InternalMinerOutcome}
    (h : internalMinerLoop m provider budget nonce = .ok found) (hnone : found.evidence = none) :
    found.result ≠ .block := by
  induction budget generalizing nonce found with
  | zero =>
      rw [← Except.ok.inj h]
      simp
  | succ budget ih =>
      rw [internalMinerLoop] at h
      split at h
      · cases h
      split at h
      · rw [← Except.ok.inj h] at hnone
        cases hnone
      split at h
      · rw [← Except.ok.inj h]
        simp
      split at h
      · cases h
      · next outcome houtcome =>
          rw [← Except.ok.inj h] at hnone ⊢
          have hrest := ih houtcome hnone
          exact hrest

/-- A step of the worker over a coherent service that reports a block has appended the served
template with a nonce to the stored history, and one that reports anything else has left the
history as it was. -/
theorem worker_extends (h : s.Coherent v) (w : MinerWorker) (memory response : Bytes) :
    WorkerEffect v (s.SolvedBy memory) (minerWorkerStep w s memory response) := by
  have hserved : (miningTemplateLocal s memory (miningPrefix + blockMaxSize)).service.Coherent v :=
    h.unchanged (RpcMessage.not_changesHistory .miningTemplate rfl (by decide))
  unfold minerWorkerStep
  split
  · exact .refused h _ _
  split
  · exact .refused h _ _
  dsimp only
  split
  · exact .refused hserved _ _
  split
  · exact .refused hserved _ _
  split
  · exact .refused hserved _ _
  unfold workerSearch
  split
  · exact .refused hserved _ _
  next found hfound =>
  dsimp only
  split
  · next hnone =>
      have hloop : found.result ≠ .block := by
        unfold internalMinerSearch at hfound
        split at hfound
        · cases hfound
        · exact internalMinerLoop_block hfound hnone
      exact .reported hserved hloop _
  split
  · exact workerSubmitBlock_effect hserved _ _ _
  · exact workerSubmitShare_effect hserved _

/-! ## Steps as uses of the storage -/

theorem miningSubmitShareLocal_refines (h : s.Coherent v) {evidence : ShareEvidence} :
    s.Refines (miningSubmitShareLocal s evidence response).2.2 := by
  unfold miningSubmitShareLocal
  split
  · exact .refl s
  · exact h.handle

theorem miningSubmitWorkLocal_refines (h : s.Coherent v) {miner : Address}
    {parent workId : Octets 32} {block : Bytes} :
    s.Refines (miningSubmitWorkLocal s miner parent workId block response).2 := by
  unfold miningSubmitWorkLocal
  split
  · exact .refl s
  split
  · exact .refl s
  · exact h.handle

theorem workerSearch_refines (h : s.Coherent v) {length : ℕ} :
    s.Refines (workerSearch w s memory length response).service := by
  unfold workerSearch
  split
  · exact .refl s
  dsimp only
  split
  · exact .refl s
  split
  · unfold workerSubmitBlock
    split
    · exact .refl s
    dsimp only
    split
    · exact miningSubmitWorkLocal_refines h
    split
    · exact miningSubmitWorkLocal_refines h
    · exact miningSubmitWorkLocal_refines h
  · unfold workerSubmitShare
    dsimp only
    split
    · exact miningSubmitShareLocal_refines h
    split
    · exact miningSubmitShareLocal_refines h
    · exact miningSubmitShareLocal_refines h

theorem MiningService.Coherent.workerStep (h : s.Coherent v) :
    s.Refines (minerWorkerStep w s memory response).service := by
  have hserved : s.Refines (miningTemplateLocal s memory (miningPrefix + blockMaxSize)).service :=
    h.handle
  have hcoherent :
      (miningTemplateLocal s memory (miningPrefix + blockMaxSize)).service.Coherent v :=
    h.unchanged (RpcMessage.not_changesHistory .miningTemplate rfl (by decide))
  unfold minerWorkerStep
  split
  · exact .refl s
  split
  · exact .refl s
  dsimp only
  split
  · exact hserved
  split
  · exact hserved
  split
  · exact hserved
  · exact hserved.trans (workerSearch_refines hcoherent)

end

section Sample

attribute [local instance] Sample.storing

namespace Sample

theorem mining_selected :
    mining.sha256Selected = true → mining.chain.hashProvider.hash = some Primitives.sha256 :=
  mining.sha256_of_selected

/-- The sample service with the state of its stored history active. -/
def miningFrom (active : ChainState) : MiningService (Option Bytes) :=
  { mining with
    sha256_of_selected := mining_selected
    active }

theorem miningFrom_coherent : ∃ t, (miningFrom t).Coherent ⟨[genesis], t⟩ := by
  obtain ⟨t, ht, -⟩ := accepts_genesis
  have hv := storageDecode_of_encode (by decide) ht
    (storageEncode_imageOf ht (by decide) (by decide +kernel))
  exact ⟨t, ⟨⟨imageOf [genesis], rfl, hv⟩, rfl⟩⟩

/-- A worker that tests one nonce in a step. -/
def miner : MinerWorker :=
  ⟨⟨.identity, octetsAt (List.replicate 32 7) 0 32⟩, 0, 1, 1⟩

end Sample

open Sample

theorem sample_worker_extends : ∃ t, (miningFrom t).Coherent ⟨[genesis], t⟩ ∧
    WorkerEffect ⟨[genesis], t⟩ ((miningFrom t).SolvedBy [])
      (minerWorkerStep miner (miningFrom t) [] []) := by
  obtain ⟨t, ht⟩ := miningFrom_coherent
  exact ⟨t, ht, worker_extends ht miner [] []⟩

end Sample

end StnChain
