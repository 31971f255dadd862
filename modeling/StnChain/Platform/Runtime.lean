import StnChain.Mining.Worker
import StnChain.Peer.Sync

/-!
# The running node

What the threads of `platforms/linux/stn_app_linux.c` do to the one mining service they share.
The sessions of RPC clients, the worker of the internal miner and the synchronization with peers
take turns under the dispatch lock.  INFO and contract queries take a second lock alone and are
answered from what `publish_info` has left there.  `runtime_coherent` says what holds of the
stored history, of the active state and of what is published, whatever the order of the turns.
-/

namespace StnChain

section

variable [Primitives]

/-! ## Published information -/

/-- `APP_INFO_PAYLOAD_SIZE`. -/
def infoPayloadSize : ℕ := 184

/-- What is published for the readers that do not take the dispatch lock. -/
structure PublishedInfo where
  payload : Bytes
  status : RpcCode
  contracts : Option ContractSnapshot

/-- The INFO payload of an accepted state. -/
def infoPayload (accepted : ChainState) : Bytes :=
  octetBytes accepted.networkId ++ octetBytes accepted.genesisId ++
    wireWrite 8 accepted.height.toNat ++ octetBytes accepted.tipId ++
    octetBytes accepted.cumulativeWork ++ octetBytes accepted.currentTarget ++ wireWrite 4 1 ++
    wireWrite 4 (accepted.height.toNat + 1)

/-- `publish_info`.  A height that its fields cannot count is not published. -/
def publishInfo (accepted : ChainState) : PublishedInfo :=
  let contracts := if accepted.hasTip then some accepted.contracts else none
  if !accepted.hasTip then ⟨List.replicate infoPayloadSize 0, .unavailable, contracts⟩
  else if accepted.height.toNat ≥ 2 ^ 32 - 1 then
    ⟨List.replicate infoPayloadSize 0, .capacity, contracts⟩
  else ⟨infoPayload accepted, .ok, contracts⟩

/-- The check of `stn_contract_query_handle` before it looks at a snapshot. -/
def contractQueryShaped (q : RpcMessage) : Bool :=
  match q.methodOf with
  | some .contractState => q.payload.length = 70 && addressOfType .contract q.payload
  | some .contractList => q.payload.length = 69 && addressOfType .identity q.payload
  | _ => false

/-- `cached_info_handle`. -/
def cachedInfoHandle (info : PublishedInfo) : RpcHandler := fun q memory capacity =>
  match q.methodOf with
  | some .contractList | some .contractState =>
      match info.contracts with
      | some contracts => contractQueryHandle contracts q memory capacity
      | none => .plain (if contractQueryShaped q then .unavailable else .invalid) memory
  | some .info =>
      if capacity < infoPayloadSize then .plain .capacity memory
      else if info.status = .ok then
        ⟨some .ok, Buffer.overwrite memory 0 info.payload, infoPayloadSize⟩
      else .plain info.status memory
  | _ => .plain .method memory

/-! ## Requests of clients -/

/-- A node that serves: its service, the suffix stages of its sessions, what it has published
and its worker, if it mines. -/
structure Runtime (ι σ : Type) where
  service : MiningService σ
  stages : ι → SuffixStage
  info : PublishedInfo
  worker : Option MinerWorker

/-- A buffer for a response. -/
abbrev FrameBuffer := { bytes : Bytes // bytes.length = rpcMaxFrame }

/-- The permissions of a client. -/
def clientPermissions : UInt32 := rpcRead ||| rpcSubmission

/-- A frame that is answered without the dispatch lock. -/
def rpcCached (request : Bytes) : Bool :=
  match rpcDecode request with
  | .error _ => true
  | .ok q =>
      q.kind ≠ 1 || q.methodOf = some .info || q.methodOf = some .contractList ||
        q.methodOf = some .contractState

/-- The message a dispatch hands to its service. -/
def rpcHanded (request : Bytes) (allowed : UInt32) (capacity : ℕ) : Option RpcMessage :=
  if capacity < rpcHeaderSize then none
  else
    match rpcDecode request with
    | .error _ => none
    | .ok q =>
        if q.kind ≠ 1 ∨ capability q.method = 0 ∨ allowed &&& ~~~7 ≠ 0 ∨
            allowed &&& capability q.method = 0 then none
        else some q

variable {ι σ τ : Type} [DecidableEq ι]

/-- `dispatch_request` for a session: the outcome and what it leaves. -/
def dispatchRequest (r : Runtime ι σ) (i : ι) (request : Bytes) (response : FrameBuffer) :
    RpcOutcome × Runtime ι σ :=
  if rpcCached request then
    (rpcDispatch request clientPermissions (some (cachedInfoHandle r.info)) response.1 rpcMaxFrame,
      r)
  else
    let handler : RpcHandler := fun q memory capacity =>
      (miningSessionHandle r.service (r.stages i) q memory capacity).1
    let outcome := rpcDispatch request clientPermissions (some handler) response.1 rpcMaxFrame
    match rpcHanded request clientPermissions rpcMaxFrame with
    | none => (outcome, { r with info := publishInfo r.service.active })
    | some q =>
        let handled := miningSessionHandle r.service (r.stages i) q
          (response.1.drop rpcHeaderSize) (min (rpcMaxFrame - rpcHeaderSize) rpcMaxPayload)
        (outcome, { r with
          service := handled.2.2
          stages := Function.update r.stages i handled.2.1
          info := publishInfo handled.2.2.active })

/-! ## Synchronization -/

/-- `stn_storage_recovery_read` against a stateful provider. -/
def storageRecoveryReadOn (c : ChainContext) (d : StorageDevice σ) (capacity : ℕ) (x : σ) :
    Except StorageStatus (StorageView × Bool) × σ :=
  match d.acquire x with
  | (.error status, x) => (.error (ioStatus status), x)
  | (.ok (), x) =>
      if c.powPolicy.isNone ∨ !(chainInitialize c).toBool then (.error .validation, d.release x)
      else
        let (result, x) := d.read capacity x
        (recoveryLocked c ⟨.ok (), fun _ => result⟩ capacity, d.release x)

/-- What a synchronization with a peer finds: the connection, whether it has been greeted, and
the room of the workspace. -/
structure SyncInput (τ : Type) where
  established : Bool
  transport : PeerTransport τ
  connection : τ
  workspace : StorageWorkspace
  candidateCapacity : ℕ
  frameCapacity : ℕ

/-- What a synchronization leaves. -/
structure ServiceSync (τ σ : Type) where
  report : PeerReport
  capabilities : Option ℕ
  connection : Option τ
  service : MiningService σ

/-- The entries of a pool `stn_pending_inclusions` finds in some blocks. -/
def PendingPool.inclusions (pool : PendingPool) (provider : HashProvider) (blocks : List Bytes) :
    Except DataStatus (List Bool) :=
  markBlocks (scanJudge false (some provider)) pool.entries blocks

/-- The end of a synchronization, which adopts the history it has collected. -/
def MiningService.adoptSynced (s : MiningService σ) (workspace : StorageWorkspace)
    (capabilities : Option ℕ) (y : SyncState τ) : ServiceSync τ σ :=
  match s.pending.mapM fun pool => pool.inclusions s.chain.hashProvider y.blocks with
  | .error _ => ⟨y.fail .validation, capabilities, none, s⟩
  | .ok remove =>
      let verified := { y.fail .retained with verified := some y.checked }
      let o := storageAdoptOn s.chain s.storage y.blocks workspace s.active s.device
      match o.status with
      | .error .notPreferred =>
          ⟨verified, capabilities, some y.transport, { s with device := o.device }⟩
      | .error _ => ⟨y.fail .storage, capabilities, none, { s with device := o.device }⟩
      | .ok () =>
          ⟨{ verified with status := none }, capabilities, some y.transport,
            { s with
              device := o.device
              active := o.active
              pending := s.pending.bind fun pool => remove.map pool.prune }⟩

/-- The part of a synchronization behind the greeting. -/
def MiningService.collect (s : MiningService σ) (input : SyncInput τ) (stored : StorageView)
    (recovery : Bool) (capabilities : Option ℕ) (connection : τ) : ServiceSync τ σ :=
  let w : PeerWorkspace s.chain.hashProvider :=
    ⟨input.workspace, input.candidateCapacity, input.frameCapacity, none⟩
  match syncBlocks s.chain input.transport w stored.blocks recovery connection with
  | .error report => ⟨report, capabilities, none, s⟩
  | .ok y => s.adoptSynced input.workspace capabilities y

/-- `sync_session` over the storage, the active state and the pool of a service. -/
def MiningService.synchronize (s : MiningService σ) (input : SyncInput τ) : ServiceSync τ σ :=
  match storageRecoveryReadOn s.chain s.storage input.workspace.currentCapacity s.device with
  | (.error _, device) => ⟨.early .storage false, none, none, { s with device }⟩
  | (.ok (stored, recovery), device) =>
      let s : MiningService σ := { s with device }
      if input.established then s.collect input stored recovery none input.connection
      else
        let w : PeerWorkspace s.chain.hashProvider :=
          ⟨input.workspace, input.candidateCapacity, input.frameCapacity, none⟩
        match syncGreet s.chain input.transport w input.connection with
        | .error status => ⟨.early status recovery, none, none, s⟩
        | .ok (capabilities, connection) =>
            s.collect input stored recovery (some capabilities) connection

/-! ## Turns -/

/-- A turn of a thread: a request of a session, the end of a session, a step of the outbound
lane that synchronizes, or a step of the internal miner. -/
inductive RuntimeEvent (ι τ : Type)
  | request (session : ι) (request : Bytes) (response : FrameBuffer)
  | closed (session : ι)
  | synchronize (input : SyncInput τ)
  | mine (memory response : Bytes)

/-- A turn: what it leaves, and the frame it sends to a client. -/
def Runtime.turn (r : Runtime ι σ) : RuntimeEvent ι τ → Runtime ι σ × Option Bytes
  | .request i request response =>
      let (o, r) := dispatchRequest r i request response
      (r, if o.code = .ok then some (o.memory.take o.written) else none)
  | .closed i => ({ r with stages := Function.update r.stages i .cleared }, none)
  | .synchronize input =>
      let service := (r.service.synchronize input).service
      ({ r with service, info := publishInfo service.active }, none)
  | .mine memory response =>
      match r.worker with
      | none => (r, none)
      | some worker =>
          let o := minerWorkerStep worker r.service memory response
          ({ r with service := o.service, worker := some o.worker }, none)

/-- A run of turns: what it leaves, and the frames it sends. -/
def Runtime.run (r : Runtime ι σ) : List (RuntimeEvent ι τ) → Runtime ι σ × List Bytes
  | [] => (r, [])
  | event :: rest =>
      let (next, sent) := r.turn event
      let (last, later) := next.run rest
      (last, sent.toList ++ later)

/-! ## Turns as uses of the storage -/

variable {s : MiningService σ} {r : Runtime ι σ} {v p : StorageView} {i : ι} {request : Bytes}
  {response : FrameBuffer} {input : SyncInput τ}

/-- A coherent service recovers its storage by one read. -/
theorem storageRecoveryReadOn_refines (h : s.Coherent v) (capacity : ℕ) :
    s.Refines { s with device :=
      (storageRecoveryReadOn s.chain s.storage capacity s.device).2 } := by
  obtain ⟨image, -, hdecode⟩ := h.stored
  obtain ⟨hpolicy, haccepts, -⟩ := storageDecode_image hdecode
  obtain ⟨initial, hinitial, -⟩ := (accepts_iff.mp haccepts).2
  have hready : ¬(s.chain.powPolicy.isNone = true ∨
      (!(chainInitialize s.chain).toBool) = true) := by
    rw [hinitial]
    simpa [Except.toBool, Option.isSome_iff_ne_none] using hpolicy
  apply MiningService.Refines.of_read capacity
  unfold storageRecoveryReadOn lockedRead
  obtain ⟨acquired, x⟩ := s.storage.acquire s.device
  cases acquired with
  | error status => rfl
  | ok _ =>
      dsimp only
      rw [if_neg hready]

theorem adoptSynced_refines {workspace : StorageWorkspace} {capabilities : Option ℕ}
    {y : SyncState τ} : s.Refines (s.adoptSynced workspace capabilities y).service := by
  unfold MiningService.adoptSynced
  split
  · exact .refl s
  next remove _ =>
  dsimp only
  split
  · next hstatus => exact .of_failed (.adopt y.blocks workspace) hstatus
  · next hstatus => exact .of_failed (.adopt y.blocks workspace) hstatus
  · exact .of_done (.adopt y.blocks workspace)

theorem collect_refines {stored : StorageView} {recovery : Bool} {capabilities : Option ℕ}
    {connection : τ} :
    s.Refines (s.collect input stored recovery capabilities connection).service := by
  unfold MiningService.collect
  dsimp only
  split
  · exact .refl s
  · exact adoptSynced_refines

/-- A synchronization refines uses of the storage. -/
theorem MiningService.Coherent.synchronize (h : s.Coherent v) (input : SyncInput τ) :
    s.Refines (s.synchronize input).service := by
  have hread := storageRecoveryReadOn_refines h input.workspace.currentCapacity
  unfold MiningService.synchronize
  split
  · next hfailed =>
      rw [hfailed] at hread
      exact hread
  next stored recovery device hok =>
  rw [hok] at hread
  dsimp only
  split
  · exact hread.trans collect_refines
  split
  · exact hread
  · exact hread.trans collect_refines

theorem dispatchRequest_refines (h : r.service.Coherent v) :
    r.service.Refines (dispatchRequest r i request response).2.service := by
  unfold dispatchRequest
  split
  · exact .refl _
  dsimp only
  split
  · exact .refl _
  · exact h.sessionHandle

/-- A turn refines uses of the storage. -/
theorem Runtime.turn_refines (h : r.service.Coherent v) (event : RuntimeEvent ι τ) :
    r.service.Refines (r.turn event).1.service := by
  cases event with
  | request i request response => exact dispatchRequest_refines h
  | closed i => exact .refl _
  | synchronize input => exact h.synchronize input
  | mine memory response =>
      simp only [Runtime.turn]
      split
      · exact .refl _
      · exact h.workerStep

/-! ## What a client reads -/

/-- A client reads a payload in an answer of OK to a method. -/
def AnswersWith (frame : Bytes) (method : RpcMethod) (payload : Bytes) : Prop :=
  ∃ m, rpcDecode frame = .ok m ∧ m.code = .ok ∧ m.methodOf = some method ∧ m.payload = payload

/-- The cumulative work an answer reports: that of INFO, or of a history the node has taken. -/
def reportedWork (frame : Bytes) : Option ℕ :=
  match rpcDecode frame with
  | .error _ => none
  | .ok m =>
      if m.code ≠ .ok then none
      else
        match m.methodOf with
        | some .info => some (wireRead m.payload 104 40)
        | some .submitWork | some .submitBlockEvidence | some .submitHistoryEvidence
        | some .submitSuffixEvidence | some .suffixStageCommit =>
            some (wireRead m.payload 40 40)
        | _ => none

theorem rpcDecode_ne_ok {bytes : Bytes} : rpcDecode bytes ≠ .error .ok := by
  unfold rpcDecode
  split
  · simp
  split
  · simp
  split
  · simp
  split
  · simp
  dsimp only
  split
  · simp
  · simp

theorem rpcEncode_ne_ok {m : RpcMessage} {capacity : ℕ} : rpcEncode m capacity ≠ .error .ok := by
  unfold rpcEncode
  split
  · simp
  split
  · simp
  · simp

/-- A response that is sent is read back. -/
theorem rpcRespond_read {m : RpcMessage} {memory : Bytes} {capacity : ℕ}
    (h : (rpcRespond m memory capacity).code = .ok) :
    rpcDecode ((rpcRespond m memory capacity).memory.take (rpcRespond m memory capacity).written) =
      .ok m := by
  unfold rpcRespond at h ⊢
  split
  · next code hcode =>
      rw [hcode] at h
      obtain rfl : code = .ok := h
      exact absurd hcode rpcEncode_ne_ok
  · next bytes hbytes =>
      rw [Buffer.take_overwrite_zero]
      unfold rpcEncode at hbytes
      split at hbytes
      · cases hbytes
      next hvalid =>
      split at hbytes
      · cases hbytes
      · rw [← Except.ok.inj hbytes]
        exact rpcDecode_bytes (by simpa using hvalid)

theorem rpcAnswer_ok {q : RpcMessage} {capacity : ℕ} {reply : RpcReply}
    (h : (rpcAnswer q capacity reply).code = .ok) :
    reply.code = some .ok ∧
      (rpcAnswer q capacity reply).payload = reply.memory.take reply.written := by
  unfold rpcAnswer at h ⊢
  dsimp only at h ⊢
  by_cases hrefused : replyRefused q.method capacity reply = true
  · rw [if_pos hrefused] at h
    cases h
  · rw [if_neg hrefused] at h ⊢
    cases hcode : reply.code with
    | none =>
        rw [hcode] at h
        cases h
    | some code =>
        rw [hcode] at h
        obtain rfl : code = .ok := h
        exact ⟨rfl, rfl⟩

/-- What a client reads in an answer of OK is what the handler wrote for its request. -/
theorem rpcDispatch_read {handle : RpcHandler} {allowed : UInt32} {memory : Bytes} {capacity : ℕ}
    {m : RpcMessage}
    (h : (rpcDispatch request allowed (some handle) memory capacity).code = .ok)
    (hread : rpcDecode ((rpcDispatch request allowed (some handle) memory capacity).memory.take
      (rpcDispatch request allowed (some handle) memory capacity).written) = .ok m)
    (hok : m.code = .ok) :
    ∃ q, rpcHanded request allowed capacity = some q ∧ m.methodOf = q.methodOf ∧
      let reply := handle q (memory.drop rpcHeaderSize)
        (min (capacity - rpcHeaderSize) rpcMaxPayload)
      reply.code = some .ok ∧ m.payload = reply.memory.take reply.written := by
  have hrefused : ∀ (m' : RpcMessage) (memory' : Bytes), m'.code ≠ .ok →
      rpcDispatch request allowed (some handle) memory capacity ≠
        rpcRespond m' memory' capacity := by
    intro m' memory' hcode heq
    rw [heq] at h hread
    obtain rfl := Except.ok.inj ((rpcRespond_read h).symm.trans hread)
    exact hcode hok
  unfold rpcDispatch at h hread hrefused
  unfold rpcHanded
  by_cases hroom : capacity < rpcHeaderSize
  · rw [if_pos hroom] at h
    cases h
  rw [if_neg hroom] at h hread hrefused ⊢
  cases hdecode : rpcDecode request with
  | error code =>
      simp only [hdecode] at hrefused
      have hcode : code ≠ .ok := fun hcode => rpcDecode_ne_ok (hcode ▸ hdecode)
      exact absurd rfl (hrefused (rpcFailure 0 0 code) memory hcode)
  | ok q =>
      simp only [hdecode] at h hread hrefused ⊢
      by_cases hkind : q.kind ≠ 1
      · rw [if_pos hkind] at hrefused
        exact absurd rfl (hrefused (rpcFailure 0 0 .invalid) memory (by simp [rpcFailure]))
      rw [if_neg hkind] at h hread hrefused
      by_cases hmethod : capability q.method = 0
      · rw [if_pos hmethod] at hrefused
        exact absurd rfl
          (hrefused (rpcFailure q.method q.requestId .method) memory (by simp [rpcFailure]))
      rw [if_neg hmethod] at h hread hrefused
      by_cases hallowed : allowed &&& ~~~7 ≠ 0 ∨ allowed &&& capability q.method = 0
      · rw [if_pos hallowed] at hrefused
        exact absurd rfl
          (hrefused (rpcFailure q.method q.requestId .forbidden) memory (by simp [rpcFailure]))
      rw [if_neg hallowed] at h hread
      have hhanded : ¬(q.kind ≠ 1 ∨ capability q.method = 0 ∨ allowed &&& ~~~7 ≠ 0 ∨
          allowed &&& capability q.method = 0) := by
        rintro (hbad | hbad | hbad)
        · exact hkind hbad
        · exact hmethod hbad
        · exact hallowed hbad
      rw [if_neg hhanded]
      obtain rfl := Except.ok.inj ((rpcRespond_read h).symm.trans hread)
      obtain ⟨hcode, hpayload⟩ := rpcAnswer_ok hok
      exact ⟨q, rfl, rfl, hcode, hpayload⟩

/-- The payload of an answer that reports a history taken by the node. -/
def acceptedPayload (accepted : ChainState) : Bytes :=
  octetBytes accepted.tipId ++ wireWrite 8 accepted.height.toNat ++
    octetBytes accepted.cumulativeWork

omit [Primitives] in
theorem wireRead_octetBytes {n : ℕ} (x : Octets n) (rest : Bytes) :
    wireRead (octetBytes x ++ rest) 0 n = x.toNat := by
  rw [wireRead_append_left (by simp), wireRead,
    BigEndian.field_zero_length (length_octetBytes x), read_octetBytes]

omit [Primitives] in
theorem wireRead_acceptedPayload (accepted : ChainState) :
    wireRead (acceptedPayload accepted) 40 40 = accepted.cumulativeWork.toNat := by
  have hfront : (octetBytes accepted.tipId ++ wireWrite 8 accepted.height.toNat).length = 40 := by
    simp
  rw [acceptedPayload, wireRead_append_right hfront.le, hfront, Nat.sub_self,
    ← List.append_nil (octetBytes accepted.cumulativeWork), wireRead_octetBytes]

omit [Primitives] in
theorem writeAll_accepted (memory : Bytes) (accepted : ChainState) :
    Buffer.writeAll memory [(0, octetBytes accepted.tipId),
      (32, wireWrite 8 accepted.height.toNat), (40, octetBytes accepted.cumulativeWork)] =
      Buffer.overwrite memory 0 (acceptedPayload accepted) := by
  have htip := Buffer.overwrite_overwrite_append (octetBytes accepted.tipId)
    (wireWrite 8 accepted.height.toNat) (Nat.zero_le memory.length)
  have hfront := Buffer.overwrite_overwrite_append
    (octetBytes accepted.tipId ++ wireWrite 8 accepted.height.toNat)
    (octetBytes accepted.cumulativeWork) (Nat.zero_le memory.length)
  simp only [length_octetBytes, length_wireWrite, List.length_append, Nat.zero_add] at htip hfront
  simp only [Buffer.writeAll, List.foldl_cons, List.foldl_nil]
  rw [htip, hfront, acceptedPayload]

omit [Primitives] in
theorem wireRead_infoPayload (accepted : ChainState) :
    wireRead (infoPayload accepted) 104 40 = accepted.cumulativeWork.toNat := by
  have hfront : (octetBytes accepted.networkId ++ octetBytes accepted.genesisId ++
      wireWrite 8 accepted.height.toNat ++ octetBytes accepted.tipId).length = 104 := by
    simp
  rw [infoPayload, List.append_assoc, List.append_assoc, List.append_assoc,
    wireRead_append_right hfront.le, hfront, Nat.sub_self, wireRead_octetBytes]

/-- An answer of OK to a request carries the accepted payload of the service it leaves. -/
def MiningOutcome.Reports (o : MiningOutcome σ) : Prop :=
  o.reply.code = some .ok →
    o.reply.memory.take o.reply.written = acceptedPayload o.service.active

variable {q : RpcMessage} {memory : Bytes} {capacity : ℕ}

theorem MiningOutcome.Reports.plain {code : RpcCode} (h : code ≠ .ok) :
    (MiningOutcome.plain code memory s).Reports :=
  fun hok => absurd (Option.some.inj hok) h

theorem historyOutcome_reports {result : RpcCode × MiningService σ} :
    (historyOutcome result memory capacity).Reports := by
  unfold historyOutcome
  split
  · intro hok
    simp only [acceptedReply, RpcReply.answer] at hok ⊢
    split at hok
    · cases hok
    next hroom =>
    rw [if_neg hroom]
    have hlength : (acceptedPayload result.2.active).length = 80 := by simp [acceptedPayload]
    rw [writeAll_accepted, ← hlength, Buffer.take_overwrite_zero]
  · next hcode => exact .plain hcode

theorem miningRequest_reports (hmethod : q.ChangesHistory) :
    (miningRequest s v q memory capacity).Reports := by
  rcases hmethod with hmethod | hmethod | hmethod | hmethod | hmethod
  · have hpooled : pooledRequest s v q memory capacity = submitWork s v q memory capacity := by
      simp only [pooledRequest, housekeeping, hmethod, workRequest]
      cases s.pending <;> rfl
    simp only [miningRequest, hmethod, hpooled]
    unfold submitWork
    split
    · next code hcode =>
        apply MiningOutcome.Reports.plain
        rintro rfl
        exact submittedWork_spec.1 hcode
    split
    · exact .plain (by simp)
    split
    · next code hcode =>
        apply MiningOutcome.Reports.plain
        rintro rfl
        exact verifyWork_ne_ok hcode
    · exact historyOutcome_reports
  · simp only [miningRequest, hmethod]
    unfold submitBlockEvidence
    split
    · exact .plain (by simp)
    · exact historyOutcome_reports
  · simp only [miningRequest, hmethod]
    unfold submitHistoryEvidence
    dsimp only
    split
    · exact .plain (by simp)
    split
    · exact .plain (by simp)
    · exact historyOutcome_reports
  · simp only [miningRequest, hmethod]
    unfold submitSuffixEvidence
    dsimp only
    split
    · exact .plain (by simp)
    split
    · exact .plain (by simp)
    split
    · exact .plain (by simp)
    split
    · exact .plain (by simp)
    · exact historyOutcome_reports
  · simp only [miningRequest, hmethod]
    unfold stageCommit
    split
    · exact .plain (by simp)
    · exact historyOutcome_reports

/-- A request that changes the history reports the state it leaves active. -/
theorem miningHandle_reports (hmethod : q.ChangesHistory) :
    (miningHandle s q memory capacity).Reports := by
  have hcontracts : q.methodOf ≠ some .contractList ∧ q.methodOf ≠ some .contractState := by
    rcases hmethod with hmethod | hmethod | hmethod | hmethod | hmethod <;> simp [hmethod]
  unfold miningHandle
  split
  · exact .plain (by simp)
  split
  · next hlist => exact absurd hlist hcontracts.1
  · next hstate => exact absurd hstate hcontracts.2
  unfold loadedRequest
  split
  · next code prepared hprepared =>
      apply MiningOutcome.Reports.plain
      rintro rfl
      exact prepareSnapshot_ne_ok hprepared
  split
  · exact .plain (storageCode_error_ne_ok _)
  · exact miningRequest_reports hmethod

omit [Primitives] in
theorem length_infoPayload (accepted : ChainState) :
    (infoPayload accepted).length = infoPayloadSize := by
  simp [infoPayload, infoPayloadSize]

omit [Primitives] in
theorem publishInfo_ok {accepted : ChainState} (h : (publishInfo accepted).status = .ok) :
    (publishInfo accepted).payload = infoPayload accepted := by
  unfold publishInfo at h ⊢
  dsimp only at h ⊢
  split at h
  · cases h
  next htip =>
  rw [if_neg htip]
  split at h
  · cases h
  · next hheight => rw [if_neg hheight]

/-- INFO is answered with the published payload. -/
theorem cachedInfoHandle_ok {accepted : ChainState} (hmethod : q.methodOf = some .info)
    (hok : (cachedInfoHandle (publishInfo accepted) q memory capacity).code = some .ok) :
    (cachedInfoHandle (publishInfo accepted) q memory capacity).memory.take
      (cachedInfoHandle (publishInfo accepted) q memory capacity).written =
        infoPayload accepted := by
  simp only [cachedInfoHandle, hmethod] at hok ⊢
  split at hok
  · cases hok
  next hroom =>
  rw [if_neg hroom]
  split at hok
  · next hstatus =>
      rw [if_pos hstatus, publishInfo_ok hstatus, ← length_infoPayload accepted,
        Buffer.take_overwrite_zero]
  · next hstatus => exact absurd (Option.some.inj hok) hstatus

/-! ## Turns -/

/-- What holds between the turns: the active state is that of the stored history `v`, and what is
published is the state of an accepted history `p` with no more work. -/
structure Runtime.Sound (r : Runtime ι σ) (p v : StorageView) : Prop where
  coherent : r.service.Coherent v
  accepted : Accepts r.service.chain p.blocks p.state
  info : r.info = publishInfo p.state
  advances : p.Advances v

theorem MiningService.Coherent.accepted (h : s.Coherent v) : Accepts s.chain v.blocks v.state := by
  obtain ⟨image, -, hdecode⟩ := h.stored
  exact (storageDecode_image hdecode).2.1

omit [DecidableEq ι] in
/-- What is published of a coherent service is its history. -/
theorem MiningService.Coherent.published (h : s.Coherent v) {stages : ι → SuffixStage}
    {worker : Option MinerWorker} :
    Runtime.Sound ⟨s, stages, publishInfo s.active, worker⟩ v v where
  coherent := h
  accepted := h.accepted
  info := by rw [h.active]
  advances := .inl rfl

/-- A turn leaves the published history or publishes the stored one.  What it tells a client is
about the history published then. -/
structure TurnEffect (r : Runtime ι σ) (turned : Runtime ι σ × Option Bytes)
    (p v p' v' : StorageView) : Prop where
  sound : turned.1.Sound p' v'
  chain : turned.1.service.chain = r.service.chain
  stored : v.Advances v'
  published : p' = p ∨ p' = v'
  informs : ∀ frame payload, turned.2 = some frame → AnswersWith frame .info payload →
    payload = infoPayload p'.state
  reports : ∀ frame work, turned.2 = some frame → reportedWork frame = some work →
    work = p'.state.cumulativeWork.toNat

theorem reportedWork_eq_some {frame : Bytes} {work : ℕ} (h : reportedWork frame = some work) :
    ∃ m, rpcDecode frame = .ok m ∧ m.code = .ok ∧
      ((m.methodOf = some .info ∧ work = wireRead m.payload 104 40) ∨
        (m.ChangesHistory ∧ work = wireRead m.payload 40 40)) := by
  unfold reportedWork at h
  split at h
  · cases h
  next m hm =>
  split at h
  · cases h
  next hcode =>
  refine ⟨m, hm, not_not.mp hcode, ?_⟩
  split at h
  · next hmethod => exact .inl ⟨hmethod, (Option.some.inj h).symm⟩
  · next hmethod => exact .inr ⟨.inl hmethod, (Option.some.inj h).symm⟩
  · next hmethod => exact .inr ⟨.inr (.inl hmethod), (Option.some.inj h).symm⟩
  · next hmethod => exact .inr ⟨.inr (.inr (.inl hmethod)), (Option.some.inj h).symm⟩
  · next hmethod => exact .inr ⟨.inr (.inr (.inr (.inl hmethod))), (Option.some.inj h).symm⟩
  · next hmethod => exact .inr ⟨.inr (.inr (.inr (.inr hmethod))), (Option.some.inj h).symm⟩
  · cases h

/-- Only some methods are answered without the dispatch lock. -/
theorem rpcCached_iff {allowed : UInt32} (h : rpcHanded request allowed capacity = some q) :
    rpcCached request = true ↔ q.methodOf = some .info ∨ q.methodOf = some .contractList ∨
      q.methodOf = some .contractState := by
  unfold rpcHanded at h
  split at h
  · cases h
  split at h
  · cases h
  next q' hdecode =>
  split at h
  · cases h
  next hpassed =>
  obtain rfl := Option.some.inj h
  have hkind : q'.kind = 1 := not_not.mp (not_or.mp hpassed).1
  simp [rpcCached, hdecode, hkind, or_assoc]

/-- What a client reads in an answer from the published information. -/
theorem cached_read {accepted : ChainState} {m : RpcMessage} (hcached : rpcCached request = true)
    (h : (rpcDispatch request clientPermissions (some (cachedInfoHandle (publishInfo accepted)))
      memory capacity).code = .ok)
    (hread : rpcDecode ((rpcDispatch request clientPermissions
      (some (cachedInfoHandle (publishInfo accepted))) memory capacity).memory.take
        (rpcDispatch request clientPermissions
          (some (cachedInfoHandle (publishInfo accepted))) memory capacity).written) = .ok m)
    (hok : m.code = .ok) :
    (m.methodOf = some .info → m.payload = infoPayload accepted) ∧ ¬m.ChangesHistory := by
  obtain ⟨q, hhanded, hmethod, hcode, hpayload⟩ := rpcDispatch_read h hread hok
  rw [rpcCached_iff hhanded, ← hmethod] at hcached
  constructor
  · intro hinfo
    rw [hpayload]
    exact cachedInfoHandle_ok (hmethod.symm.trans hinfo) hcode
  · rintro (hwork | hwork | hwork | hwork | hwork) <;> simp [hwork] at hcached

/-- What a client reads in an answer of its session. -/
theorem session_read {stage : SuffixStage} {m : RpcMessage} (hcached : ¬rpcCached request = true)
    (h : (rpcDispatch request clientPermissions (some fun q memory capacity =>
      (miningSessionHandle s stage q memory capacity).1) memory capacity).code = .ok)
    (hread : rpcDecode ((rpcDispatch request clientPermissions (some fun q memory capacity =>
      (miningSessionHandle s stage q memory capacity).1) memory capacity).memory.take
        (rpcDispatch request clientPermissions (some fun q memory capacity =>
          (miningSessionHandle s stage q memory capacity).1) memory capacity).written) = .ok m)
    (hok : m.code = .ok) :
    ∃ q, rpcHanded request clientPermissions capacity = some q ∧ m.methodOf ≠ some .info ∧
      (m.ChangesHistory → m.payload = acceptedPayload (miningSessionHandle s stage q
        (memory.drop rpcHeaderSize) (min (capacity - rpcHeaderSize)
          rpcMaxPayload)).2.2.active) := by
  obtain ⟨q, hhanded, hmethod, hcode, hpayload⟩ := rpcDispatch_read h hread hok
  rw [rpcCached_iff hhanded, ← hmethod] at hcached
  refine ⟨q, hhanded, fun hinfo => hcached (.inl hinfo), fun hchanges => ?_⟩
  have hchanges : q.ChangesHistory := by
    rwa [RpcMessage.ChangesHistory, hmethod] at hchanges
  rw [hpayload]
  unfold miningSessionHandle at hcode ⊢
  split at hcode
  · cases hcode
  next hidle =>
  rw [if_neg hidle]
  exact miningHandle_reports hchanges hcode

/-- A request that is answered without the dispatch lock. -/
theorem Runtime.Sound.cached (h : r.Sound p v) (hcached : rpcCached request = true) :
    TurnEffect r (r.turn (.request i request response : RuntimeEvent ι τ)) p v p v := by
  have hturn : r.turn (.request i request response : RuntimeEvent ι τ) =
      (r, if (rpcDispatch request clientPermissions (some (cachedInfoHandle (publishInfo p.state)))
          response.1 rpcMaxFrame).code = .ok then
        some ((rpcDispatch request clientPermissions
          (some (cachedInfoHandle (publishInfo p.state))) response.1 rpcMaxFrame).memory.take
            (rpcDispatch request clientPermissions
              (some (cachedInfoHandle (publishInfo p.state))) response.1 rpcMaxFrame).written)
        else none) := by
    simp only [Runtime.turn, dispatchRequest, if_pos hcached, h.info]
  rw [hturn]
  refine ⟨h, rfl, .inl rfl, .inl rfl, ?_, ?_⟩
  · intro frame payload hsent hanswers
    dsimp only at hsent
    split at hsent
    · next hok =>
        obtain ⟨m, hread, hcode, hmethod, rfl⟩ := hanswers
        obtain rfl := Option.some.inj hsent
        exact (cached_read hcached hok hread hcode).1 hmethod
    · cases hsent
  · intro frame work hsent hreported
    dsimp only at hsent
    split at hsent
    · next hok =>
        obtain ⟨m, hread, hcode, hreport⟩ := reportedWork_eq_some hreported
        obtain rfl := Option.some.inj hsent
        obtain ⟨hinfo, hchanges⟩ := cached_read hcached hok hread hcode
        rcases hreport with ⟨hmethod, rfl⟩ | ⟨hmethod, -⟩
        · rw [hinfo hmethod, wireRead_infoPayload]
        · exact absurd hmethod hchanges
    · cases hsent

/-- A request that a session answers under the dispatch lock. -/
theorem Runtime.Sound.dispatched (h : r.Sound p v) (hcached : ¬rpcCached request = true) :
    ∃ v', TurnEffect r (r.turn (.request i request response : RuntimeEvent ι τ)) p v v' v' := by
  have hrefines := Runtime.turn_refines h.coherent
    (.request i request response : RuntimeEvent ι τ)
  obtain ⟨v', hcoherent, hadvances⟩ := h.coherent.refines hrefines
  -- What is sent does not depend on whether the dispatch reaches the handler.
  have hframe : (r.turn (.request i request response : RuntimeEvent ι τ)).2 =
      if (rpcDispatch request clientPermissions (some fun q memory capacity =>
          (miningSessionHandle r.service (r.stages i) q memory capacity).1)
            response.1 rpcMaxFrame).code = .ok then
        some ((rpcDispatch request clientPermissions (some fun q memory capacity =>
          (miningSessionHandle r.service (r.stages i) q memory capacity).1)
            response.1 rpcMaxFrame).memory.take
              (rpcDispatch request clientPermissions (some fun q memory capacity =>
                (miningSessionHandle r.service (r.stages i) q memory capacity).1)
                  response.1 rpcMaxFrame).written)
      else none := by
    simp only [Runtime.turn, dispatchRequest, if_neg hcached]
    split
    · rfl
    · rfl
  refine ⟨v', ?_, hrefines.chain, hadvances, .inr rfl, ?_, ?_⟩
  · refine ⟨hcoherent, hcoherent.accepted, ?_, .inl rfl⟩
    rw [← hcoherent.active]
    simp only [Runtime.turn, dispatchRequest, if_neg hcached]
    split
    · rfl
    · rfl
  · intro frame payload hsent hanswers
    rw [hframe] at hsent
    split at hsent
    · next hok =>
        obtain ⟨m, hread, hcode, hmethod, -⟩ := hanswers
        obtain rfl := Option.some.inj hsent
        obtain ⟨q, -, hinfo, -⟩ := session_read hcached hok hread hcode
        exact absurd hmethod hinfo
    · cases hsent
  · intro frame work hsent hreported
    rw [hframe] at hsent
    split at hsent
    · next hok =>
        obtain ⟨m, hread, hcode, hreport⟩ := reportedWork_eq_some hreported
        obtain rfl := Option.some.inj hsent
        obtain ⟨q, hhanded, hinfo, haccepted⟩ := session_read hcached hok hread hcode
        rcases hreport with ⟨hmethod, -⟩ | ⟨hmethod, rfl⟩
        · exact absurd hmethod hinfo
        · have hservice : (r.turn (.request i request response : RuntimeEvent ι τ)).1.service =
              (miningSessionHandle r.service (r.stages i) q (response.1.drop rpcHeaderSize)
                (min (rpcMaxFrame - rpcHeaderSize) rpcMaxPayload)).2.2 := by
            simp only [Runtime.turn, dispatchRequest, if_neg hcached, hhanded]
          rw [haccepted hmethod, wireRead_acceptedPayload, ← hservice, hcoherent.active]
    · cases hsent

theorem Runtime.Sound.turn (h : r.Sound p v) (event : RuntimeEvent ι τ) :
    ∃ p' v', TurnEffect r (r.turn event) p v p' v' := by
  have hrefines := Runtime.turn_refines h.coherent event
  obtain ⟨v', hcoherent, hadvances⟩ := h.coherent.refines hrefines
  cases event with
  | request i request response =>
      by_cases hcached : rpcCached request = true
      · exact ⟨p, v, h.cached hcached⟩
      · obtain ⟨v', heffect⟩ := h.dispatched hcached
        exact ⟨v', v', heffect⟩
  | closed i =>
      exact ⟨p, v, ⟨⟨h.coherent, h.accepted, h.info, h.advances⟩, rfl, .inl rfl, .inl rfl,
        by simp [Runtime.turn], by simp [Runtime.turn]⟩⟩
  | synchronize input =>
      exact ⟨v', v', ⟨hcoherent.published, hrefines.chain, hadvances, .inr rfl,
        by simp [Runtime.turn], by simp [Runtime.turn]⟩⟩
  | mine memory response =>
      -- The miner publishes nothing and sends nothing.
      have hquiet : (r.turn (.mine memory response : RuntimeEvent ι τ)).1.info = r.info ∧
          (r.turn (.mine memory response : RuntimeEvent ι τ)).2 = none := by
        simp only [Runtime.turn]
        split
        · exact ⟨rfl, rfl⟩
        · exact ⟨rfl, rfl⟩
      exact ⟨p, v', ⟨⟨hcoherent, hrefines.chain ▸ h.accepted, hquiet.1.trans h.info,
        h.advances.trans hadvances⟩, hrefines.chain, hadvances, .inl rfl,
        by simp [hquiet.2], by simp [hquiet.2]⟩⟩

/-! ## Runs -/

/-- The works some frames report, in order. -/
def reportedWorks (frames : List Bytes) : List ℕ :=
  frames.filterMap reportedWork

/-- What a run leaves: later histories, and reports of a work that never decreases and lies
between what was published before and after. -/
structure RunEffect (r : Runtime ι σ) (ran : Runtime ι σ × List Bytes)
    (p v p' v' : StorageView) : Prop where
  sound : ran.1.Sound p' v'
  chain : ran.1.service.chain = r.service.chain
  stored : v.Advances v'
  published : p.Advances p'
  informs : ∀ frame ∈ ran.2, ∀ payload, AnswersWith frame .info payload →
    ∃ u, Accepts r.service.chain u.blocks u.state ∧ p.Advances u ∧ u.Advances p' ∧
      payload = infoPayload u.state
  reports : ∀ work ∈ reportedWorks ran.2,
    p.state.cumulativeWork.toNat ≤ work ∧ work ≤ p'.state.cumulativeWork.toNat
  ordered : (reportedWorks ran.2).Pairwise (· ≤ ·)

omit [DecidableEq ι] in
theorem TurnEffect.publishes {turned : Runtime ι σ × Option Bytes} {p' v' : StorageView}
    (h : r.Sound p v) (heffect : TurnEffect r turned p v p' v') : p.Advances p' := by
  rcases heffect.published with hkept | hnew
  · exact .inl hkept
  · rw [hnew]
    exact h.advances.trans heffect.stored

theorem reportedWorks_append (sent later : List Bytes) :
    reportedWorks (sent ++ later) = reportedWorks sent ++ reportedWorks later :=
  List.filterMap_append

omit [DecidableEq ι] in
/-- A turn reports the work of what is published then. -/
theorem TurnEffect.first {turned : Runtime ι σ × Option Bytes} {p' v' : StorageView} {work : ℕ}
    (heffect : TurnEffect r turned p v p' v') (hwork : work ∈ reportedWorks turned.2.toList) :
    work = p'.state.cumulativeWork.toNat := by
  obtain ⟨frame, hframe, hreported⟩ := List.mem_filterMap.mp hwork
  exact heffect.reports frame work (Option.mem_toList.mp hframe) hreported

theorem reportedWorks_single (sent : Option Bytes) :
    (reportedWorks sent.toList).Pairwise (· ≤ ·) := by
  cases sent with
  | none => exact .nil
  | some frame =>
      cases hreported : reportedWork frame with
      | none => simp [reportedWorks, hreported]
      | some work => simp [reportedWorks, hreported]

theorem Runtime.Sound.run (h : r.Sound p v) (events : List (RuntimeEvent ι τ)) :
    ∃ p' v', RunEffect r (r.run events) p v p' v' := by
  induction events generalizing r p v with
  | nil =>
      exact ⟨p, v, h, rfl, .inl rfl, .inl rfl, by simp [Runtime.run],
        by simp [Runtime.run, reportedWorks], by simp [Runtime.run, reportedWorks]⟩
  | cons event rest ih =>
      obtain ⟨p₁, v₁, hturn⟩ := h.turn event
      obtain ⟨p₂, v₂, hrest⟩ := ih hturn.sound
      have hpublished := hturn.publishes h
      have hsent : ((r.run (event :: rest)).2) =
          (r.turn event).2.toList ++ ((r.turn event).1.run rest).2 := rfl
      refine ⟨p₂, v₂, hrest.sound, hrest.chain.trans hturn.chain, hturn.stored.trans hrest.stored,
        hpublished.trans hrest.published, ?_, ?_, ?_⟩
      · intro frame hframe payload hanswers
        rw [hsent, List.mem_append, Option.mem_toList] at hframe
        rcases hframe with hfirst | hlater
        · exact ⟨p₁, hturn.chain ▸ hturn.sound.accepted, hpublished, hrest.published,
            hturn.informs frame payload hfirst hanswers⟩
        · obtain ⟨u, haccepted, hafter, hbefore, hpayload⟩ :=
            hrest.informs frame hlater payload hanswers
          exact ⟨u, hturn.chain ▸ haccepted, hpublished.trans hafter, hbefore, hpayload⟩
      · intro work hwork
        rw [hsent, reportedWorks_append, List.mem_append] at hwork
        rcases hwork with hfirst | hlater
        · rw [hturn.first hfirst]
          exact ⟨hpublished.work_le, hrest.published.work_le⟩
        · obtain ⟨hafter, hbefore⟩ := hrest.reports work hlater
          exact ⟨hpublished.work_le.trans hafter, hbefore⟩
      · rw [hsent, reportedWorks_append, List.pairwise_append]
        refine ⟨reportedWorks_single _, hrest.ordered, fun work hfirst later hlater => ?_⟩
        rw [hturn.first hfirst]
        exact (hrest.reports later hlater).1

/-- Whatever the order of the turns of the threads: the active state stays that of the stored
history, which only one with more work replaces; INFO describes an accepted history that was
stored meanwhile; and the work that clients are told never decreases. -/
theorem runtime_coherent (h : r.service.Coherent v) (hinfo : r.info = publishInfo v.state)
    (events : List (RuntimeEvent ι τ)) :
    ∃ v', (r.run events).1.service.Coherent v' ∧ v.Advances v' ∧
      (∀ frame ∈ (r.run events).2, ∀ payload, AnswersWith frame .info payload →
        ∃ u, Accepts r.service.chain u.blocks u.state ∧ v.Advances u ∧ u.Advances v' ∧
          payload = infoPayload u.state) ∧
      (∀ work ∈ reportedWorks (r.run events).2,
        v.state.cumulativeWork.toNat ≤ work ∧ work ≤ v'.state.cumulativeWork.toNat) ∧
      (reportedWorks (r.run events).2).Pairwise (· ≤ ·) := by
  obtain ⟨p', v', heffect⟩ := Runtime.Sound.run ⟨h, h.accepted, hinfo, .inl rfl⟩ events
  refine ⟨v', heffect.sound.coherent, heffect.stored, ?_, ?_, heffect.ordered⟩
  · intro frame hframe payload hanswers
    obtain ⟨u, haccepted, hafter, hbefore, hpayload⟩ :=
      heffect.informs frame hframe payload hanswers
    exact ⟨u, haccepted, hafter, hbefore.trans heffect.sound.advances, hpayload⟩
  · intro work hwork
    obtain ⟨hafter, hbefore⟩ := heffect.reports work hwork
    exact ⟨hafter, hbefore.trans heffect.sound.advances.work_le⟩

end

section Sample

attribute [local instance] Sample.storing

namespace Sample

/-- A node over the sample service that has published its history. -/
def runningFrom (active : ChainState) : Runtime Bool (Option Bytes) :=
  ⟨miningFrom active, fun _ => .cleared, publishInfo active, some miner⟩

def zeroFrame : FrameBuffer := ⟨List.replicate rpcMaxFrame 0, List.length_replicate⟩

/-- A session asks for INFO, the miner takes a step, and another session asks for INFO. -/
def turns : List (RuntimeEvent Bool Bytes) :=
  let ask := rpcHeaderBytes ⟨1, 1, .ok, 7, []⟩
  [.request false ask zeroFrame, .mine [] [], .request true ask zeroFrame]

end Sample

open Sample

theorem sample_runtime_coherent : ∃ t v, (miningFrom t).Coherent ⟨[genesis], t⟩ ∧
    ((runningFrom t).run turns).1.service.Coherent v ∧
    (⟨[genesis], t⟩ : StorageView).Advances v ∧
    (reportedWorks ((runningFrom t).run turns).2).Pairwise (· ≤ ·) := by
  obtain ⟨t, ht⟩ := miningFrom_coherent
  obtain ⟨v, hv, hadvances, -, -, hordered⟩ :=
    runtime_coherent (r := runningFrom t) ht rfl turns
  exact ⟨t, v, ht, hv, hadvances, hordered⟩

end Sample

end StnChain
