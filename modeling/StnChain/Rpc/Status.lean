import StnChain.Codecs
import StnChain.Pending.Inclusions
import StnChain.Rpc.NodeService

/-!
# Transaction status requests

The search behind `TRANSACTION_STATUS` finds the first place of an identifier in an
accepted history, and the node service reports it.  Dispatch does not: the method is
missing from the capability table, so a request never reaches the service.
-/

namespace StnChain

section

variable [Primitives]

/-! ## The search -/

/-- A transaction with a given identifier. -/
def hasId (provider : HashProvider) (id : Octets 32) (t : Bytes) : Bool :=
  (transactionId t provider).toOption = some id

theorem hasId_iff {provider : HashProvider} {id : Octets 32} {t : Bytes} :
    hasId provider id t = true ↔ transactionId t provider = .ok id := by
  simp only [hasId, decide_eq_true_eq]
  cases transactionId t provider <;> simp [Except.toOption]

/-- The walk of a validated body finds the first position of the identifier. -/
theorem statusWalk_eq {provider : HashProvider} (id : Octets 32) {count : ℕ} (position : ℕ)
    {rest : Bytes} (hbody : bodyWalk count rest = .ok ())
    (hids : ∀ t ∈ bodyTransactions count rest, ∃ found, transactionId t provider = .ok found) :
    statusWalk provider id count position rest =
      .ok (((bodyTransactions count rest).findIdx? (hasId provider id)).map (position + ·)) := by
  induction count generalizing position rest with
  | zero =>
      simp only [bodyWalk] at hbody
      split at hbody
      · next hrest => simp [statusWalk, bodyTransactions, hrest]
      · simp at hbody
  | succ count ih =>
      simp only [bodyWalk] at hbody
      split at hbody
      · simp at hbody
      next hlength =>
      split at hbody
      · simp at hbody
      next hsize =>
      split at hbody
      · simp at hbody
      next tx hdecode =>
      rw [bodyTransactions, List.forall_mem_cons] at hids
      obtain ⟨⟨found, hfound⟩, hrest⟩ := hids
      have hfits : ¬ wireRead rest 0 4 > (rest.drop 4).length := by
        rw [List.length_drop]
        omega
      rw [statusWalk, if_neg hlength, if_neg hfits, hdecode, hfound, bodyTransactions,
        List.findIdx?_cons]
      by_cases hsame : found = id
      · have hhas : hasId provider id ((rest.drop 4).take (wireRead rest 0 4)) = true :=
          hasId_iff.mpr (hsame ▸ hfound)
        simp [hsame, hhas]
      · have hhas : hasId provider id ((rest.drop 4).take (wireRead rest 0 4)) = false := by
          apply Bool.eq_false_iff.mpr
          intro h
          exact hsame (Except.ok.inj (hfound.symm.trans (hasId_iff.mp h)))
        have hnext := ih (position + 1) hbody hrest
        simp only [hsame, if_false, hhas, Bool.false_eq_true, List.drop_drop] at hnext ⊢
        rw [hnext]
        simp only [Option.map_map, Function.comp_def, Nat.add_assoc, Nat.add_comm 1]

/-- Where an identifier occurs first: in no earlier block, and at no earlier position. -/
structure FirstAt (provider : HashProvider) (id : Octets 32) (blocks : List Bytes)
    (found : TransactionStatus) (past : List Bytes) (bytes : Bytes) (b : Block) : Prop where
  split : ∃ rest, blocks = past ++ bytes :: rest
  past : ∀ t ∈ historyOctets past, transactionId t provider ≠ .ok id
  decode : blockDecode bytes = .ok b
  height : found.height = b.header.height
  blockId : chainBlockId bytes provider = .ok found.blockId
  position : b.transactions.findIdx? (hasId provider id) = some found.transactionPosition

/-- The search over blocks that decode and whose identifiers all exist. -/
theorem statusSearch_spec {provider : HashProvider} (id : Octets 32) {blocks : List Bytes}
    (hblocks : ∀ bytes ∈ blocks, (∃ b, blockDecode bytes = .ok b) ∧
      ∃ blockId, chainBlockId bytes provider = .ok blockId)
    (hids : ∀ t ∈ historyOctets blocks, ∃ found, transactionId t provider = .ok found) :
    (statusSearch provider id blocks = .notFound ∧
        ∀ t ∈ historyOctets blocks, transactionId t provider ≠ .ok id) ∨
      ∃ found past bytes b, statusSearch provider id blocks = .accepted found ∧
        FirstAt provider id blocks found past bytes b := by
  induction blocks with
  | nil => exact .inl ⟨rfl, by simp [historyOctets]⟩
  | cons bytes rest ih =>
      rw [List.forall_mem_cons] at hblocks
      obtain ⟨⟨⟨b, hdecode⟩, blockId, hblockId⟩, hrest⟩ := hblocks
      have hoctets : historyOctets (bytes :: rest) = b.transactions ++ historyOctets rest := by
        simp [historyOctets, blockTransactions_of_decode hdecode]
      rw [hoctets, List.forall_mem_append] at hids
      obtain ⟨-, -, -, hbody⟩ := blockDecode_eq_ok hdecode
      have hwalk := statusWalk_eq id 0 (bodyWalk_of_validate hbody) hids.1
      have hnone (h : b.transactions.findIdx? (hasId provider id) = none) :
          ∀ t ∈ b.transactions, transactionId t provider ≠ .ok id := by
        intro t ht hid
        have hfalse := List.findIdx?_eq_none_iff.mp h t ht
        rw [hasId_iff.mpr hid] at hfalse
        exact Bool.noConfusion hfalse
      cases hfind : b.transactions.findIdx? (hasId provider id) with
      | some position =>
          refine .inr ⟨⟨b.header.height, blockId, position⟩, [], bytes, b, ?_, ⟨rest, rfl⟩,
            by simp [historyOctets], hdecode, rfl, hblockId, hfind⟩
          have hhere : statusWalk provider id b.header.transactionCount.toNat 0 b.body =
              .ok (some position) := by
            rw [hwalk]
            simpa [Block.transactions] using hfind
          simp [statusSearch, hdecode, hhere, hblockId]
      | none =>
          have hhere : statusWalk provider id b.header.transactionCount.toNat 0 b.body =
              .ok none := by
            rw [hwalk]
            simpa [Block.transactions] using hfind
          have hskip : statusSearch provider id (bytes :: rest) =
              statusSearch provider id rest := by
            simp [statusSearch, hdecode, hhere]
          rcases ih hrest hids.2 with ⟨hfound, hall⟩ | ⟨found, past, bytes', b', hfound, hfirst⟩
          · refine .inl ⟨hskip.trans hfound, ?_⟩
            rw [hoctets, List.forall_mem_append]
            exact ⟨hnone hfind, hall⟩
          · obtain ⟨rest', rfl⟩ := hfirst.split
            refine .inr ⟨found, bytes :: past, bytes', b', hskip.trans hfound, ⟨rest', rfl⟩, ?_,
              hfirst.decode, hfirst.height, hfirst.blockId, hfirst.position⟩
            have hpast : historyOctets (bytes :: past) = b.transactions ++ historyOctets past := by
              simp [historyOctets, blockTransactions_of_decode hdecode]
            rw [hpast, List.forall_mem_append]
            exact ⟨hnone hfind, hfirst.past⟩

/-- Over an accepted history the search reports the first place of an identifier, and that
there is none exactly when no transaction has it. -/
theorem transactionStatusFind_exact {c : ChainContext} {blocks : List Bytes} {s : ChainState}
    (h : Accepts c blocks s) (id : Octets 32) :
    (transactionStatusFind c blocks id = .notFound ∧
        ∀ t ∈ historyOctets blocks, transactionId t c.hashProvider ≠ .ok id) ∨
      ∃ found past bytes b, transactionStatusFind c blocks id = .accepted found ∧
        FirstAt c.hashProvider id blocks found past bytes b := by
  obtain ⟨hblocks, hreach⟩ := accepts_iff.mp h
  have hsearch : transactionStatusFind c blocks id = statusSearch c.hashProvider id blocks := by
    have hreport : chainReconstructHistory c blocks = (acceptedReport c, some s) := h
    simp [transactionStatusFind, hblocks, hreport, acceptedReport]
  rw [hsearch]
  exact statusSearch_spec id (fun bytes hbytes =>
    ⟨hreach.decode_of_mem hbytes, hreach.blockId_of_mem hbytes⟩)
    fun t ht => hreach.transactionId_of_mem ht

/-! ## Requests through dispatch -/

/-- The request for the status of a transaction. -/
def statusRequest (requestId : UInt64) (id : Octets 32) : RpcMessage :=
  ⟨1, 13, .ok, requestId, octetBytes id⟩

/-- The frame of a status request. -/
def statusFrame (requestId : UInt64) (id : Octets 32) : Bytes :=
  rpcHeaderBytes (statusRequest requestId id) ++ octetBytes id

/-- The response a client reads after its status request. -/
def statusExchange (s : NodeService) (requestId : UInt64) (id : Octets 32) (allowed : UInt32)
    (response : Bytes) (capacity : ℕ) : Except RpcCode RpcMessage :=
  let out := rpcDispatch (statusFrame requestId id) allowed (some (nodeServiceHandle s)) response
    capacity
  rpcDecode (out.memory.take out.written)

/-- A response that carries the result of the search. -/
def CarriesStatus (result : TransactionStatusResult) (r : RpcMessage) : Prop :=
  r.kind = 2 ∧
    match result with
    | .notFound => r.code = .notFound
    | .accepted found =>
        r.code = .ok ∧ r.payload = wireWrite 8 found.height.toNat ++ octetBytes found.blockId ++
          wireWrite 4 found.transactionPosition
    | .unavailable => r.code = .unavailable
    | .argument | .provider => r.code = .provider

omit [Primitives] in
theorem CarriesStatus.not_method {result : TransactionStatusResult} {method : UInt16}
    {requestId : UInt64} : ¬ CarriesStatus result (rpcFailure method requestId .method) := by
  intro h
  obtain ⟨-, h⟩ := h
  cases result <;> simp [rpcFailure] at h

/-- A status request is well formed. -/
theorem statusRequest_decode (requestId : UInt64) (id : Octets 32) :
    rpcDecode (statusFrame requestId id) = .ok (statusRequest requestId id) := by
  apply rpcDecode_bytes
  have hsize : 32 ≤ rpcMaxPayload := by decide
  have hmethod : shape 13 (octetBytes id) = true := rfl
  simp [messageValid, statusRequest, hsize, exclusiveCode, hmethod]

/-- The handler of the node service itself reports what the search found. -/
theorem nodeServiceHandle_status (s : NodeService) (requestId : UInt64) (id : Octets 32)
    {memory : Bytes} {capacity : ℕ} (hcapacity : rpcTransactionStatusSize ≤ capacity) :
    let reply := nodeServiceHandle s (statusRequest requestId id) memory capacity
    ∃ code, reply.code = some code ∧ CarriesStatus (transactionStatusFind s.chain s.blocks id)
      ⟨2, 13, code, requestId, reply.memory.take reply.written⟩ := by
  have hreply : nodeServiceHandle s (statusRequest requestId id) memory capacity =
      nodeTransactionStatus s (statusRequest requestId id) memory capacity := rfl
  have hpayload : (statusRequest requestId id).payload = octetBytes id := rfl
  simp only [hreply, nodeTransactionStatus, hpayload, length_octetBytes, ne_eq,
    not_true_eq_false, if_false, octetsAt_octetBytes]
  cases transactionStatusFind s.chain s.blocks id with
  | notFound => exact ⟨.notFound, rfl, rfl, rfl⟩
  | unavailable => exact ⟨.unavailable, rfl, rfl, rfl⟩
  | argument => exact ⟨.provider, rfl, rfl, rfl⟩
  | provider => exact ⟨.provider, rfl, rfl, rfl⟩
  | accepted found =>
      refine ⟨.ok, by simp [RpcReply.answer, Nat.not_lt.mpr hcapacity], rfl, rfl, ?_⟩
      have hfirst : Buffer.overwrite (Buffer.overwrite memory 0 (wireWrite 8 found.height.toNat)) 8
          (octetBytes found.blockId) = Buffer.overwrite memory 0
            (wireWrite 8 found.height.toNat ++ octetBytes found.blockId) := by
        simpa using Buffer.overwrite_overwrite_append (wireWrite 8 found.height.toNat)
          (octetBytes found.blockId) (Nat.zero_le memory.length)
      have hsecond := Buffer.overwrite_overwrite_append
        (wireWrite 8 found.height.toNat ++ octetBytes found.blockId)
        (wireWrite 4 found.transactionPosition) (Nat.zero_le memory.length)
      simp only [List.length_append, length_wireWrite, length_octetBytes, Nat.zero_add,
        Nat.reduceAdd] at hsecond
      simp only [RpcReply.answer, if_neg (Nat.not_lt.mpr hcapacity), Buffer.writeAll,
        List.foldl_cons, List.foldl_nil, hfirst, hsecond]
      simpa [rpcTransactionStatusSize] using Buffer.take_overwrite_zero memory
        (wireWrite 8 found.height.toNat ++ octetBytes found.blockId ++
          wireWrite 4 found.transactionPosition)

/-- Dispatch refuses the method before any capability or service is looked at. -/
theorem rpcDispatch_status (requestId : UInt64) (id : Octets 32) (allowed : UInt32)
    (service : Option RpcHandler) (response : Bytes) {capacity : ℕ}
    (hcapacity : rpcHeaderSize ≤ capacity) :
    rpcDispatch (statusFrame requestId id) allowed service response capacity =
      rpcRespond (rpcFailure 13 requestId .method) response capacity := by
  rw [rpcDispatch, if_neg (Nat.not_lt.mpr hcapacity), statusRequest_decode]
  simp [statusRequest, capability, RpcMethod.ofWire]

/-- What a client reads when its buffer holds a frame at all. -/
theorem statusExchange_eq (s : NodeService) (requestId : UInt64) (id : Octets 32)
    (allowed : UInt32) (response : Bytes) {capacity : ℕ} (hcapacity : rpcHeaderSize ≤ capacity) :
    statusExchange s requestId id allowed response capacity =
      .ok (rpcFailure 13 requestId .method) := by
  have hvalid : messageValid (rpcFailure 13 requestId .method) = true :=
    messageValid_failure 13 requestId rfl
  have hencode : rpcEncode (rpcFailure 13 requestId .method) capacity =
      .ok (rpcHeaderBytes (rpcFailure 13 requestId .method) ++ []) := by
    have hfits : ¬ capacity < rpcHeaderSize := Nat.not_lt.mpr hcapacity
    rw [rpcEncode, hvalid]
    simp [rpcFailure, hfits]
  rw [statusExchange, rpcDispatch_status _ _ _ _ _ hcapacity, rpcRespond, hencode]
  dsimp only
  rw [Buffer.take_overwrite_zero]
  exact rpcDecode_bytes hvalid

/-- No history, identifier, capability or buffer makes dispatch answer a status request with
what the search of the node service finds. -/
theorem transaction_status_unanswered (s : NodeService) (requestId : UInt64) (id : Octets 32)
    (allowed : UInt32) (response : Bytes) (capacity : ℕ) :
    rpcDecode (statusFrame requestId id) = .ok (statusRequest requestId id) ∧
      ¬ ∃ r, statusExchange s requestId id allowed response capacity = .ok r ∧
        CarriesStatus (transactionStatusFind s.chain s.blocks id) r := by
  refine ⟨statusRequest_decode requestId id, ?_⟩
  rintro ⟨r, hdecode, hcarries⟩
  by_cases hcapacity : rpcHeaderSize ≤ capacity
  · rw [statusExchange_eq s requestId id allowed response hcapacity] at hdecode
    obtain rfl := Except.ok.inj hdecode
    exact CarriesStatus.not_method hcarries
  · rw [statusExchange, rpcDispatch, if_pos (Nat.lt_of_not_le hcapacity)] at hdecode
    simp [rpcDecode, rpcHeaderSize] at hdecode

end

section Sample

attribute [local instance] Sample.primitives

/-- The identifier of the sample's first transaction. -/
def Sample.firstId : Octets 32 :=
  ((transactionId (Sample.destination Sample.alice) Sample.context.hashProvider).toOption).getD 0

/-- The sample's node, with its first three blocks. -/
def Sample.node : NodeService where
  chain := Sample.context
  blocks := [Sample.genesis, Sample.empty, Sample.shares]
  intelligence := none
  retained := []

/-- The sample history is accepted and carries the transaction at the front of block two, but
no answer of dispatch says so. -/
theorem status_request_refused :
    (∃ s, Accepts Sample.node.chain Sample.node.blocks s) ∧
      (∃ blockId, transactionStatusFind Sample.node.chain Sample.node.blocks Sample.firstId =
        .accepted ⟨2, blockId, 0⟩) ∧
      ¬ ∃ r, statusExchange Sample.node 7 Sample.firstId 7 (List.replicate 1024 0) 1024 = .ok r ∧
        CarriesStatus
          (transactionStatusFind Sample.node.chain Sample.node.blocks Sample.firstId) r := by
  refine ⟨accepts_of_isSome (by decide +kernel), ⟨?_, ?_⟩, ?_⟩
  · exact ((chainBlockId Sample.shares Sample.context.hashProvider).toOption).getD 0
  · decide +kernel
  · rintro ⟨r, hdecode, hcarries⟩
    rw [statusExchange_eq Sample.node 7 Sample.firstId 7 _ (by decide)] at hdecode
    obtain rfl := Except.ok.inj hdecode
    exact CarriesStatus.not_method hcarries

end Sample

end StnChain
