import StnChain.Mining.Session

/-!
# Replies and their capacity

A handler gets the memory of its reply with the number of octets that are its own.  The
branches of `stn_node_service.c` and of `stn_mining.c` compare what they need with that
number before they write, all but SUBMIT_SHARE, which writes the identifier of a share as
soon as it is in the pool.  `mining_reply_fits_iff` says for which requests a session
keeps within the capacity.
-/

namespace StnChain

section

variable [Primitives]

/-! ## Replies that fit -/

/-- The reply writes only within its capacity and reports no more than it. -/
structure RpcReply.Fits (r : RpcReply) (capacity : ℕ) (memory : Bytes) : Prop where
  within : Buffer.Within capacity memory r.memory
  reported : r.written ≤ capacity

variable {memory : Bytes} {capacity : ℕ} {code : RpcCode} {q : RpcMessage}

omit [Primitives] in
theorem RpcReply.plain_fits : (RpcReply.plain code memory).Fits capacity memory :=
  ⟨.refl capacity memory, Nat.zero_le capacity⟩

omit [Primitives] in
/-- An answer fits when none of its writes ends behind what it needs. -/
theorem RpcReply.answer_fits {needed : ℕ} {writes : List (ℕ × Bytes)}
    (hsize : capacity ≤ memory.length)
    (hends : ∀ write ∈ writes, write.1 + write.2.length ≤ needed) :
    (RpcReply.answer code needed writes memory capacity).Fits capacity memory := by
  unfold RpcReply.answer
  split
  · exact RpcReply.plain_fits
  next hroom =>
  have hneeded : needed ≤ capacity := not_lt.mp hroom
  constructor
  · apply Buffer.Within.writeAll _ hsize
    intro write hwrite
    exact (hends write hwrite).trans hneeded
  · exact hneeded

omit [Primitives] in
theorem index_lt_of_mem_zipIdx {α : Type} {xs : List α} {x : α × ℕ} (h : x ∈ xs.zipIdx) :
    x.2 < xs.length := by
  obtain ⟨hindex, -⟩ := List.getElem?_eq_some_iff.mp (List.mk_mem_zipIdx_iff_getElem?.mp h)
  exact hindex

/-! ## The node service -/

omit [Primitives] in
theorem ValidationReport.writes_end (r : ValidationReport) (offset : ℕ) :
    ∀ write ∈ r.writes offset, write.1 + write.2.length ≤ offset + 20 := by
  intro write hwrite
  obtain ⟨field, hfield, rfl⟩ := List.mem_map.mp hwrite
  have hindex : field.2 < 10 := index_lt_of_mem_zipIdx hfield
  simp only [length_wireWrite]
  omega

theorem length_chainCursorEncode {cursor : ChainCursor} {bytes : Bytes}
    (h : chainCursorEncode cursor = .ok bytes) : bytes.length = 45 := by
  unfold chainCursorEncode at h
  split at h
  · simp at h
  · rw [← Except.ok.inj h]
    simp

variable (hsize : capacity ≤ memory.length)
include hsize

theorem nodeDeriveAddress_fits : (nodeDeriveAddress q memory capacity).Fits capacity memory := by
  unfold nodeDeriveAddress
  split
  · exact RpcReply.plain_fits
  split
  · exact RpcReply.plain_fits
  split
  · exact RpcReply.plain_fits
  split
  · exact RpcReply.plain_fits
  split
  · exact RpcReply.plain_fits
  -- the length of the text is compared by the type of the address
  split
  iterate 2
    · split
      · exact RpcReply.plain_fits
      · exact RpcReply.answer_fits hsize (by simp)

omit [Primitives] in
theorem balanceReply_fits {state : ChainState} :
    (balanceReply state q memory capacity).Fits capacity memory := by
  unfold balanceReply
  split
  · exact RpcReply.plain_fits
  split
  · exact RpcReply.plain_fits
  split
  · exact RpcReply.plain_fits
  split
  · exact RpcReply.plain_fits
  · exact RpcReply.answer_fits hsize (by simp)

omit [Primitives] in
theorem contractStateReply_fits {contracts : ContractSnapshot} :
    (contractStateReply contracts q memory capacity).Fits capacity memory := by
  unfold contractStateReply
  split
  · exact RpcReply.plain_fits
  split
  · exact RpcReply.plain_fits
  split
  · exact RpcReply.plain_fits
  split
  · exact RpcReply.plain_fits
  · exact RpcReply.plain_fits
  split
  · exact RpcReply.plain_fits
  · exact RpcReply.answer_fits hsize (by simp)

omit [Primitives] hsize in
/-- An entry of a contract list is written within its ninety octets. -/
theorem contractListWrites_end {result : ContractQueryResult} {i count : ℕ} (hi : i < count) :
    ∀ write ∈ contractListWrites result i,
      write.1 + write.2.length ≤ 2 + count * rpcContractListEntrySize := by
  have hlabel : AddressType.contract.label.length = 6 := by
    decide
  have hentry : (i + 1) * rpcContractListEntrySize ≤ count * rpcContractListEntrySize :=
    Nat.mul_le_mul_right _ hi
  simp only [rpcContractListEntrySize] at hentry
  intro write hwrite
  simp only [contractListWrites, List.mem_cons, List.not_mem_nil, or_false] at hwrite
  rcases hwrite with rfl | rfl | rfl | rfl | rfl <;>
    simp only [length_addressText, hlabel, length_wireWrite, rpcContractListEntrySize] <;> omega

theorem contractListReply_fits {contracts : ContractSnapshot} :
    (contractListReply contracts q memory capacity).Fits capacity memory := by
  unfold contractListReply
  split
  · exact RpcReply.plain_fits
  split
  · exact RpcReply.plain_fits
  split
  · exact RpcReply.plain_fits
  split
  · exact RpcReply.plain_fits
  apply RpcReply.answer_fits hsize
  intro write hwrite
  rcases List.mem_cons.mp hwrite with rfl | hentry
  · simp
  · obtain ⟨result, hresult, hentry⟩ := List.mem_flatMap.mp hentry
    exact contractListWrites_end (index_lt_of_mem_zipIdx hresult) write hentry

theorem contractQueryHandle_fits {contracts : ContractSnapshot} :
    (contractQueryHandle contracts q memory capacity).Fits capacity memory := by
  unfold contractQueryHandle
  split
  · exact contractStateReply_fits hsize
  · exact contractListReply_fits hsize
  · exact RpcReply.plain_fits

variable {s : NodeService}

theorem nodeTransactionStatus_fits :
    (nodeTransactionStatus s q memory capacity).Fits capacity memory := by
  unfold nodeTransactionStatus
  split
  · exact RpcReply.plain_fits
  split
  · exact RpcReply.plain_fits
  · exact RpcReply.plain_fits
  · exact RpcReply.plain_fits
  · exact RpcReply.plain_fits
  · exact RpcReply.answer_fits hsize (by simp [rpcTransactionStatusSize])

theorem nodeIntelligence_fits {submit : Bool} :
    (nodeIntelligence s submit q memory capacity).Fits capacity memory := by
  unfold nodeIntelligence
  split
  · exact RpcReply.plain_fits
  split
  · exact RpcReply.plain_fits
  next report _ =>
  split
  · exact RpcReply.plain_fits
  · exact RpcReply.answer_fits hsize (by simpa using report.writes_end 0)

theorem nodeCursorReorg_fits : (nodeCursorReorg s q memory capacity).Fits capacity memory := by
  unfold nodeCursorReorg
  split
  · exact RpcReply.plain_fits
  split
  · exact RpcReply.plain_fits
  · exact RpcReply.plain_fits
  · exact RpcReply.plain_fits
  · exact RpcReply.plain_fits
  · exact RpcReply.plain_fits
  · exact RpcReply.answer_fits hsize (by simp)

/-- The plan with a cursor is written in two parts behind one comparison. -/
theorem nodeRecoveryPlan_fits : (nodeRecoveryPlan s q memory capacity).Fits capacity memory := by
  unfold nodeRecoveryPlan
  split
  · exact RpcReply.plain_fits
  split
  · exact RpcReply.plain_fits
  · exact RpcReply.plain_fits
  · exact RpcReply.plain_fits
  · exact RpcReply.plain_fits
  · exact RpcReply.answer_fits hsize (by simp)
  next boundary resume _ =>
  split
  · exact RpcReply.plain_fits
  next hroom =>
  have hfirst : Buffer.Within capacity memory (Buffer.writeAll memory
      [(0, wireWrite 8 boundary.height.toNat), (8, octetBytes boundary.blockId)]) := by
    apply Buffer.Within.writeAll _ hsize
    simp
    omega
  dsimp only
  split
  · exact ⟨hfirst, Nat.zero_le _⟩
  next bytes hbytes =>
  have hlength := length_chainCursorEncode hbytes
  constructor
  · apply hfirst.trans
    apply Buffer.Within.overwrite
    · omega
    · rw [hfirst.length]
      exact hsize
  · exact not_lt.mp hroom

theorem nodeRecordReply_fits {found : RecordMatch} {position : ChainCursor} :
    (nodeRecordReply found position memory capacity).Fits capacity memory := by
  unfold nodeRecordReply
  split
  · exact RpcReply.plain_fits
  next hroom =>
  obtain ⟨hhead, hbody⟩ := not_or.mp hroom
  have hfirst : Buffer.Within capacity memory (Buffer.writeAll memory
      [(0, octetBytes found.recordId), (32, wireWrite 8 found.height.toNat),
        (40, octetBytes found.blockId),
        (72, wireWrite 4 position.transactionPosition.toNat)]) := by
    apply Buffer.Within.writeAll _ hsize
    simp
    omega
  dsimp only
  split
  · exact ⟨hfirst, Nat.zero_le _⟩
  next bytes hbytes =>
  have hlength := length_chainCursorEncode hbytes
  constructor
  · apply hfirst.trans
    apply Buffer.Within.writeAll
    · simp
      omega
    · rw [hfirst.length]
      exact hsize
  · dsimp only
    omega

theorem nodeFirstRecord_fits : (nodeFirstRecord s q memory capacity).Fits capacity memory := by
  unfold nodeFirstRecord
  split
  · exact RpcReply.plain_fits
  split
  · exact RpcReply.plain_fits
  · exact RpcReply.plain_fits
  · exact RpcReply.plain_fits
  · exact RpcReply.plain_fits
  · exact nodeRecordReply_fits hsize

theorem nodeNextRecord_fits : (nodeNextRecord s q memory capacity).Fits capacity memory := by
  unfold nodeNextRecord
  split
  · exact RpcReply.plain_fits
  split
  · exact RpcReply.plain_fits
  · exact RpcReply.plain_fits
  · exact RpcReply.plain_fits
  · exact RpcReply.plain_fits
  · exact RpcReply.plain_fits
  · exact RpcReply.plain_fits
  · exact nodeRecordReply_fits hsize

theorem nodeAcceptedRecord_fits :
    (nodeAcceptedRecord s q memory capacity).Fits capacity memory := by
  unfold nodeAcceptedRecord
  split
  · exact RpcReply.plain_fits
  split
  · exact RpcReply.plain_fits
  · exact RpcReply.plain_fits
  · exact RpcReply.plain_fits
  · exact RpcReply.plain_fits
  split
  · exact RpcReply.plain_fits
  next hroom =>
  obtain ⟨hhead, hbody⟩ := not_or.mp hroom
  constructor
  · apply Buffer.Within.writeAll _ hsize
    simp
    omega
  · dsimp only
    omega

omit [Primitives] in
theorem blockReply_fits {bytes : Bytes} : (blockReply bytes memory capacity).Fits capacity memory :=
  RpcReply.answer_fits hsize (by simp)

theorem nodeState_fits {state : ChainState} :
    (nodeState s state q memory capacity).Fits capacity memory := by
  unfold nodeState
  dsimp only
  split
  · exact RpcReply.answer_fits hsize (by simp)
  · split
    · exact RpcReply.plain_fits
    · exact blockReply_fits hsize
  · split
    · exact RpcReply.plain_fits
    · exact RpcReply.plain_fits
    · exact blockReply_fits hsize
  · split
    · exact RpcReply.plain_fits
    · exact RpcReply.answer_fits hsize (by simp)
  · split
    · exact RpcReply.plain_fits
    · exact RpcReply.plain_fits
  · exact RpcReply.answer_fits hsize (by simp)
  · exact RpcReply.plain_fits

/-- Every answer of the node service fits. -/
theorem nodeServiceHandle_fits : (nodeServiceHandle s q memory capacity).Fits capacity memory := by
  unfold nodeServiceHandle
  split
  · exact nodeDeriveAddress_fits hsize
  · split
    · exact RpcReply.plain_fits
    · exact balanceReply_fits hsize
  iterate 2
    · split
      · exact RpcReply.plain_fits
      · exact contractQueryHandle_fits hsize
  · exact nodeTransactionStatus_fits hsize
  iterate 5
    · exact RpcReply.plain_fits
  · exact nodeIntelligence_fits hsize
  · exact nodeIntelligence_fits hsize
  · exact nodeCursorReorg_fits hsize
  · exact nodeRecoveryPlan_fits hsize
  · exact nodeFirstRecord_fits hsize
  · exact nodeNextRecord_fits hsize
  · exact nodeAcceptedRecord_fits hsize
  · split
    · exact RpcReply.plain_fits
    · exact nodeState_fits hsize

/-! ## The mining service -/

variable {σ : Type} {m : MiningService σ} {v : StorageView}

omit [Primitives] in
theorem acceptedReply_fits {state : ChainState} :
    (acceptedReply state memory capacity).Fits capacity memory :=
  RpcReply.answer_fits hsize (by simp)

theorem historyOutcome_fits {r : RpcCode × MiningService σ} :
    (historyOutcome r memory capacity).reply.Fits capacity memory := by
  unfold historyOutcome
  split
  · exact acceptedReply_fits hsize
  · exact RpcReply.plain_fits

theorem stageCommit_fits : (stageCommit m v memory capacity).reply.Fits capacity memory := by
  unfold stageCommit
  split
  · exact RpcReply.plain_fits
  · exact historyOutcome_fits hsize

theorem submitSuffixEvidence_fits :
    (submitSuffixEvidence m q memory capacity).reply.Fits capacity memory := by
  unfold submitSuffixEvidence
  dsimp only
  split
  · exact RpcReply.plain_fits
  split
  · exact RpcReply.plain_fits
  split
  · exact RpcReply.plain_fits
  split
  · exact RpcReply.plain_fits
  · exact historyOutcome_fits hsize

theorem submitHistoryEvidence_fits :
    (submitHistoryEvidence m v q memory capacity).reply.Fits capacity memory := by
  unfold submitHistoryEvidence
  dsimp only
  split
  · exact RpcReply.plain_fits
  split
  · exact RpcReply.plain_fits
  · exact historyOutcome_fits hsize

theorem submitBlockEvidence_fits :
    (submitBlockEvidence m v q memory capacity).reply.Fits capacity memory := by
  unfold submitBlockEvidence
  split
  · exact RpcReply.plain_fits
  · exact historyOutcome_fits hsize

theorem submitTransaction_fits :
    (submitTransaction m v q memory capacity).reply.Fits capacity memory := by
  unfold submitTransaction
  split
  · exact RpcReply.plain_fits
  split
  · exact RpcReply.plain_fits
  apply RpcReply.answer_fits hsize
  split
  · simp
  · simp

theorem submitIntelligence_fits {pool : PendingPool} :
    (submitIntelligence m pool v q memory capacity).reply.Fits capacity memory := by
  unfold submitIntelligence
  split
  · exact RpcReply.plain_fits
  apply RpcReply.answer_fits hsize
  rw [List.forall_mem_append, List.forall_mem_append]
  constructor
  · constructor
    · simp
    · intro write hwrite
      have hend := ValidationReport.writes_end _ _ write hwrite
      omega
  · simp

omit [Primitives] in
theorem pendingReply_fits {pool : PendingPool} :
    (pendingReply pool memory capacity).Fits capacity memory :=
  RpcReply.answer_fits hsize (by simp)

theorem submitWork_fits : (submitWork m v q memory capacity).reply.Fits capacity memory := by
  unfold submitWork
  split
  · exact RpcReply.plain_fits
  split
  · exact RpcReply.plain_fits
  split
  · exact RpcReply.plain_fits
  · exact historyOutcome_fits hsize

theorem miningTemplate_fits : (miningTemplate m v memory capacity).reply.Fits capacity memory := by
  unfold miningTemplate
  split
  · exact RpcReply.plain_fits
  · apply RpcReply.answer_fits hsize
    simp
    omega

omit hsize in
/-- The context of work takes 76 octets. -/
theorem nodeServiceHandle_room
    (hmethod : q.methodOf = some .miningContext ∨ q.methodOf = some .checkWorkBase)
    (hok : (nodeServiceHandle s q memory capacity).code = some .ok) : 76 ≤ capacity := by
  have hanswer : ∀ writes : List (ℕ × Bytes),
      (RpcReply.answer .ok 76 writes memory capacity).code = some .ok → 76 ≤ capacity := by
    intro writes hcode
    unfold RpcReply.answer at hcode
    split at hcode
    · simp [RpcReply.plain] at hcode
    · next hroom => exact not_lt.mp hroom
  have hstate : ∀ state, (nodeState s state q memory capacity).code = some .ok →
      76 ≤ capacity := by
    intro state hcode
    unfold nodeState at hcode
    rcases hmethod with hmethod | hmethod
    · simp only [hmethod] at hcode
      exact hanswer _ hcode
    · simp only [hmethod] at hcode
      split at hcode
      · simp [RpcReply.plain] at hcode
      · exact hanswer _ hcode
  have hsnapshot : ∀ code, nodeSnapshot s = .error code → code ≠ .ok := by
    intro code herror
    unfold nodeSnapshot at herror
    split at herror
    · simp [← Except.error.inj herror]
    dsimp only at herror
    split at herror
    · simp [← Except.error.inj herror]
    · simp [← Except.error.inj herror]
    · simp at herror
    · simp [← Except.error.inj herror]
  cases hsnap : nodeSnapshot s with
  | error code =>
      have hcode : (nodeServiceHandle s q memory capacity).code = some code := by
        rcases hmethod with hmethod | hmethod <;>
          simp [nodeServiceHandle, hmethod, hsnap, RpcReply.plain]
      rw [hcode] at hok
      exact absurd (Option.some.inj hok) (hsnapshot code hsnap)
  | ok state =>
      have hreply : nodeServiceHandle s q memory capacity =
          nodeState s state q memory capacity := by
        rcases hmethod with hmethod | hmethod <;> simp [nodeServiceHandle, hmethod, hsnap]
      rw [hreply] at hok
      exact hstate state hok

/-- The context of work is completed behind the answer of the node service. -/
theorem miningContext_fits
    (hmethod : q.methodOf = some .miningContext ∨ q.methodOf = some .checkWorkBase) :
    (miningContext m v q memory capacity).reply.Fits capacity memory := by
  have hanswer : (nodeServiceHandle (nodeQuery m v) q memory capacity).Fits capacity memory :=
    nodeServiceHandle_fits hsize
  unfold miningContext
  dsimp only
  split
  · next hok =>
      have hroom := nodeServiceHandle_room hmethod hok
      constructor
      · apply hanswer.within.trans
        apply Buffer.Within.overwrite
        · simpa using hroom
        · rw [hanswer.within.length]
          exact hsize
      · exact hanswer.reported
  · exact hanswer

/-- The branches behind the pool, but SUBMIT_SHARE. -/
theorem workRequest_fits (hmethod : q.methodOf ≠ some .submitShare) :
    (workRequest m v q memory capacity).reply.Fits capacity memory := by
  unfold workRequest
  split
  · next hshare => exact absurd hshare hmethod
  · exact submitWork_fits hsize
  · exact miningTemplate_fits hsize
  · next hcontext => exact miningContext_fits hsize (.inl hcontext)
  · next hcontext => exact miningContext_fits hsize (.inr hcontext)
  · exact nodeServiceHandle_fits hsize

theorem pooledRequest_fits (hmethod : q.methodOf ≠ some .submitShare) :
    (pooledRequest m v q memory capacity).reply.Fits capacity memory := by
  unfold pooledRequest
  split
  · exact RpcReply.plain_fits
  split
  · exact submitIntelligence_fits hsize
  · exact pendingReply_fits hsize
  · exact workRequest_fits hsize hmethod

theorem miningRequest_fits (hmethod : q.methodOf ≠ some .submitShare) :
    (miningRequest m v q memory capacity).reply.Fits capacity memory := by
  unfold miningRequest
  split
  · exact balanceReply_fits hsize
  iterate 5
    · exact nodeServiceHandle_fits hsize
  iterate 3
    · exact RpcReply.plain_fits
  · exact stageCommit_fits hsize
  · exact submitSuffixEvidence_fits hsize
  · exact submitHistoryEvidence_fits hsize
  · exact submitBlockEvidence_fits hsize
  · exact submitTransaction_fits hsize
  · exact pooledRequest_fits hsize hmethod

theorem miningHandle_fits (hmethod : q.methodOf ≠ some .submitShare) :
    (miningHandle m q memory capacity).reply.Fits capacity memory := by
  unfold miningHandle
  split
  · exact RpcReply.plain_fits
  split
  iterate 2
    · split
      · exact contractQueryHandle_fits hsize
      · exact RpcReply.plain_fits
  unfold loadedRequest
  split
  · exact RpcReply.plain_fits
  split
  · exact RpcReply.plain_fits
  · exact miningRequest_fits hsize hmethod

omit hsize

/-! ## A share that is admitted -/

/-- The transaction of a share is accepted by a pool, and the share has an identifier. -/
def PendingPool.AdmitsShare (pool : PendingPool) (c : Option ValidationContext) (v : StorageView)
    (provider : HashProvider) (share : ShareEvidence) : Prop :=
  ∃ canonical transaction id, shareEncode share = .ok canonical ∧
    transactionEncode ⟨1, .shareEvidence, canonical⟩ (txHeaderSize + shareCanonicalSize) =
      .ok transaction ∧
    (sharePendingAdmit pool transaction c v provider).result = .accepted ∧
    shareId share = .ok id

/-- A service reaches the pool with the verified share of a SUBMIT_SHARE request: the history
loads, the pool without what it includes is there, and the share verifies. -/
structure MiningService.ReachesPool (m : MiningService σ) (q : RpcMessage) (v : StorageView)
    (kept : MiningService σ) (pool : PendingPool) (share : ShareEvidence) : Prop where
  method : q.methodOf = some .submitShare
  ready : ¬(!m.sha256Selected ∨ m.chain.powPolicy.isNone)
  housekept : ∃ prepared device, prepareSnapshot m = (.ok (), prepared) ∧
    storageLoad prepared.chain prepared.storage prepared.snapshotCapacity prepared.device =
      (.ok v, device) ∧
    housekeeping { prepared with device } v q = .ok kept
  pending : kept.pending = some pool
  verified : verifiedShare kept.chain v q.payload = .ok share

/-- A SUBMIT_SHARE request whose share is admitted to the pool of the service. -/
def MiningService.AdmitsShare (m : MiningService σ) (q : RpcMessage) : Prop :=
  ∃ v kept pool share, m.ReachesPool q v kept pool share ∧
    pool.AdmitsShare kept.intelligence v kept.chain.hashProvider share

variable {pool : PendingPool} {c : Option ValidationContext} {provider : HashProvider}
  {share : ShareEvidence} {kept : MiningService σ}

/-- The identifier of a share is written exactly when the share is admitted. -/
theorem submitSharePair_cases (pool : PendingPool) (c : Option ValidationContext) (v : StorageView)
    (provider : HashProvider) (share : ShareEvidence) :
    (pool.AdmitsShare c v provider share ∧
      ∃ id, (submitSharePair c v provider share pool).shareId = some id) ∨
    (¬pool.AdmitsShare c v provider share ∧
      (submitSharePair c v provider share pool).shareId = none ∧
      (submitSharePair c v provider share pool).code ≠ .ok) := by
  unfold submitSharePair
  split
  · next hencode =>
      right
      refine ⟨?_, rfl, by simp⟩
      rintro ⟨_, _, _, hcanonical, -⟩
      simp [hencode] at hcanonical
  next canonical hcanonical =>
  split
  · next hencode =>
      right
      refine ⟨?_, rfl, by simp⟩
      rintro ⟨_, _, _, hcanonical', htransaction, -⟩
      obtain rfl := Except.ok.inj (hcanonical.symm.trans hcanonical')
      simp [hencode] at htransaction
  next transaction htransaction =>
  dsimp only
  split
  · next hrefused =>
      right
      refine ⟨?_, rfl, pendingCode_ne_ok _⟩
      rintro ⟨_, _, _, hcanonical', htransaction', haccepted, -⟩
      obtain rfl := Except.ok.inj (hcanonical.symm.trans hcanonical')
      obtain rfl := Except.ok.inj (htransaction.symm.trans htransaction')
      exact hrefused haccepted
  next haccepted =>
  split
  · next hid =>
      right
      refine ⟨?_, rfl, by simp⟩
      rintro ⟨_, _, _, -, -, -, hid'⟩
      simp [hid] at hid'
  · next id hid =>
      left
      exact ⟨⟨canonical, transaction, id, hcanonical, htransaction, not_not.mp haccepted, hid⟩,
        id, rfl⟩

theorem submitShare_fits (hsize : capacity ≤ memory.length)
    (hroom : ∀ pool share, m.pending = some pool →
      verifiedShare m.chain v q.payload = .ok share →
      pool.AdmitsShare m.intelligence v m.chain.hashProvider share → 32 ≤ capacity) :
    (submitShare m v q memory).reply.Fits capacity memory := by
  unfold submitShare
  split
  · exact RpcReply.plain_fits
  next share hshare =>
  split
  · exact RpcReply.plain_fits
  next pool hpool =>
  rcases submitSharePair_cases pool m.intelligence v m.chain.hashProvider share with
    ⟨hadmits, id, hid⟩ | ⟨-, hid, hcode⟩
  · have hroom := hroom pool share hpool hshare hadmits
    dsimp only
    rw [hid]
    constructor
    · exact Buffer.Within.overwrite (by simpa using hroom) hsize
    · dsimp only
      split
      · exact hroom
      · exact Nat.zero_le _
  · dsimp only
    rw [hid, if_neg hcode]
    exact ⟨.refl capacity memory, Nat.zero_le _⟩

/-- A SUBMIT_SHARE request that reaches the pool is answered there. -/
theorem MiningService.ReachesPool.handle (h : m.ReachesPool q v kept pool share) :
    miningHandle m q memory capacity = submitShare kept v q memory := by
  obtain ⟨prepared, device, hprepared, hloaded, hkept⟩ := h.housekept
  rw [miningHandle, if_neg h.ready]
  simp [h.method, loadedRequest, hprepared, hloaded, miningRequest, pooledRequest, hkept,
    h.pending, workRequest]

/-- The identifier of an admitted share takes more than a smaller memory. -/
theorem submitShare_overruns (hpending : m.pending = some pool)
    (hverified : verifiedShare m.chain v q.payload = .ok share)
    (hadmits : pool.AdmitsShare m.intelligence v m.chain.hashProvider share)
    (hshort : capacity < 32) :
    ¬(submitShare m v q (List.replicate capacity 0)).reply.Fits capacity
      (List.replicate capacity 0) := by
  intro hfits
  have hlength := hfits.within.length
  rcases submitSharePair_cases pool m.intelligence v m.chain.hashProvider share with
    ⟨-, id, hid⟩ | ⟨hrefused, -⟩
  · simp [submitShare, hverified, hpending, hid, Buffer.overwrite] at hlength
    omega
  · exact hrefused hadmits

theorem miningHandle_share_fits (hsize : capacity ≤ memory.length)
    (hmethod : q.methodOf = some .submitShare) (hroom : m.AdmitsShare q → 32 ≤ capacity) :
    (miningHandle m q memory capacity).reply.Fits capacity memory := by
  unfold miningHandle
  split
  · exact RpcReply.plain_fits
  next hready =>
  simp only [hmethod]
  unfold loadedRequest
  split
  · exact RpcReply.plain_fits
  next prepared hprepared =>
  split
  · exact RpcReply.plain_fits
  next v device hloaded =>
  simp only [miningRequest, hmethod, pooledRequest]
  split
  · exact RpcReply.plain_fits
  next kept hkept =>
  simp only [workRequest, hmethod]
  have hfits : (submitShare kept v q memory).reply.Fits capacity memory := by
    apply submitShare_fits hsize
    intro pool share hpending hverified hadmits
    exact hroom ⟨v, kept, pool, share,
      ⟨hmethod, hready, ⟨prepared, device, hprepared, hloaded, hkept⟩,
        hpending, hverified⟩, hadmits⟩
  split
  · contradiction
  · contradiction
  · exact hfits

/-- A session keeps within the capacity of its reply exactly when it is not asked, with
less room than an identifier takes, to admit a share that its service does admit. -/
theorem mining_reply_fits_iff (service : MiningService σ) (stage : SuffixStage) (q : RpcMessage)
    (capacity : ℕ) :
    (∀ memory : Bytes, capacity ≤ memory.length →
      Buffer.Within capacity memory
          (miningSessionHandle service stage q memory capacity).1.memory ∧
        (miningSessionHandle service stage q memory capacity).1.written ≤ capacity) ↔
    ¬(capacity < 32 ∧ service.stage.active = false ∧
      { service with stage }.AdmitsShare q) := by
  constructor
  · rintro hfits ⟨hshort, hidle, v, kept, pool, share, hreaches, hadmits⟩
    obtain ⟨hwithin, hreported⟩ := hfits (List.replicate capacity 0) (by simp)
    simp only [miningSessionHandle, hidle, Bool.false_eq_true, if_false,
      hreaches.handle] at hwithin hreported
    exact submitShare_overruns hreaches.pending hreaches.verified hadmits hshort
      ⟨hwithin, hreported⟩
  · intro hcondition memory hsize
    unfold miningSessionHandle
    split
    · exact ⟨.refl capacity memory, Nat.zero_le _⟩
    next hidle =>
    have hidle : service.stage.active = false := by
      simpa using hidle
    have hfits : (miningHandle { service with stage } q memory capacity).reply.Fits capacity
        memory := by
      by_cases hmethod : q.methodOf = some .submitShare
      · apply miningHandle_share_fits hsize hmethod
        intro hadmits
        by_contra hshort
        exact hcondition ⟨not_le.mp hshort, hidle, hadmits⟩
      · exact miningHandle_fits hsize hmethod
    exact ⟨hfits.within, hfits.reported⟩

end

section Sample

attribute [local instance] Sample.storing

namespace Sample

/-- The sample service with an empty pool. -/
def sharing : MiningService (Option Bytes) :=
  { mining with pending := some PendingPool.empty }

/-- A share of the work on the stored block, which no block includes yet. -/
def shareRequest : RpcMessage :=
  ⟨1, 0x2004, .ok, 7,
    octetBytes (0x9f9fc628e63c7a935f1cbb3cd7ad73f16040a0294a748d5e06564861fb636e83 : Octets 32) ++
      addressText alice.miningIdentity ++ wireWrite 8 2 ++
      blockHeaderBytes (header genesisId 1 workCommitment target 0 0 0)⟩

end Sample

open Sample

/-- With room for sixteen octets the identifier of the share is written over what follows
them, although the request is refused because the miner has named no wallet. -/
theorem share_reply_overruns :
    let reply := (miningSessionHandle sharing .cleared shareRequest (List.replicate 64 0) 16).1
    reply.code = some .unavailable ∧ 16 ≤ (List.replicate 64 (0 : UInt8)).length ∧
      ¬Buffer.Within 16 (List.replicate 64 0) reply.memory := by
  refine ⟨by decide +kernel, by simp, fun hwithin => ?_⟩
  have hbeyond := hwithin.beyond
  revert hbeyond
  decide +kernel

end Sample

end StnChain
