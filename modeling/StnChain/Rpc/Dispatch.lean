import StnChain.Rpc.Message

/-!
# Dispatch of requests

`stn_rpc_dispatch` decodes a request, checks the capability its method needs, lets
the service handle it and answers with what the handler left, once that has the
shape the method prescribes.  Whatever goes wrong, the answer is a frame.
-/

namespace StnChain

section

variable [Primitives]

/-! ## Handlers -/

/-- What a handler leaves behind: its status, `none` for a value outside the enumeration,
the memory at its output pointer, and the length it reports. -/
structure RpcReply where
  code : Option RpcCode
  memory : Bytes
  written : ℕ

/-- `stn_rpc_handler`: the request, the memory at the output pointer, and how many of its
octets are the handler's. -/
abbrev RpcHandler := RpcMessage → Bytes → ℕ → RpcReply

/-- A handler that writes nothing but the octets it was given. -/
def RpcHandler.Bounded (handle : RpcHandler) : Prop :=
  ∀ q memory capacity, capacity ≤ memory.length →
    Buffer.Within capacity memory (handle q memory capacity).memory

/-- `STN_RPC_READ`. -/
def rpcRead : UInt32 := 1

/-- `STN_RPC_SUBMISSION`. -/
def rpcSubmission : UInt32 := 2

/-- `STN_RPC_ADMIN`. -/
def rpcAdmin : UInt32 := 4

/-- `capability`. -/
def capability (method : UInt16) : UInt32 :=
  match RpcMethod.ofWire method.toNat with
  | some .getCursorReorgStatus | some .getConsumerRecoveryPlan | some .getFirstAcceptedRecord
  | some .getNextAcceptedRecord | some .deriveAddress | some .balance | some .contractState
  | some .contractList | some .pending | some .info | some .blockHeight | some .blockId
  | some .getAcceptedRecord | some .checkIntelligence | some .intelligenceId
  | some .intelligenceCursor | some .miningContext | some .checkWorkBase
  | some .miningTemplate => rpcRead
  | some .submitTransaction | some .submitBlockEvidence | some .submitHistoryEvidence
  | some .submitSuffixEvidence | some .suffixStageBegin | some .suffixStageAppend
  | some .suffixStageCommit | some .suffixStageAbort | some .submitIntelligence
  | some .submitWork | some .submitShare => rpcSubmission
  | some .adminControl => rpcAdmin
  | some .transactionStatus | none => 0

/-! ## Dispatch -/

/-- What a call leaves behind: its status, the response buffer, and the length it reports. -/
structure RpcOutcome where
  code : RpcCode
  memory : Bytes
  written : ℕ

/-- The response is encoded at the front of the buffer. -/
def rpcRespond (r : RpcMessage) (memory : Bytes) (capacity : ℕ) : RpcOutcome :=
  match rpcEncode r capacity with
  | .error code => ⟨code, memory, 0⟩
  | .ok bytes => ⟨.ok, Buffer.overwrite memory 0 bytes, bytes.length⟩

/-- A response without payload. -/
def rpcFailure (method : UInt16) (requestId : UInt64) (code : RpcCode) : RpcMessage :=
  ⟨2, method, code, requestId, []⟩

/-- A reply that is not passed on. -/
def replyRefused (method : UInt16) (capacity : ℕ) (reply : RpcReply) : Bool :=
  match reply.code with
  | none => true
  | some code =>
      exclusiveCode code method || capacity < reply.written ||
        (RpcCode.current.toWire ≤ code.toWire &&
          !recoveryResponse method code (reply.memory.take reply.written)) ||
        (code = .ok && !responseShape method (reply.memory.take reply.written))

/-- The codes whose responses carry what the handler wrote. -/
def RpcCode.carriesPayload : RpcCode → Bool
  | .ok | .commonAncestor | .recoverFromStart | .recoverAfterCursor => true
  | _ => false

/-- The response made of a handler's reply. -/
def rpcAnswer (q : RpcMessage) (capacity : ℕ) (reply : RpcReply) : RpcMessage :=
  let code :=
    if replyRefused q.method capacity reply then .provider else reply.code.getD .provider
  ⟨2, q.method, code, q.requestId,
    if code.carriesPayload then reply.memory.take reply.written else []⟩

/-- `stn_rpc_dispatch`. -/
def rpcDispatch (request : Bytes) (allowed : UInt32) (service : Option RpcHandler)
    (response : Bytes) (capacity : ℕ) : RpcOutcome :=
  if capacity < rpcHeaderSize then ⟨.capacity, response, 0⟩
  else
    match rpcDecode request with
    | .error code => rpcRespond (rpcFailure 0 0 code) response capacity
    | .ok q =>
        if q.kind ≠ 1 then rpcRespond (rpcFailure 0 0 .invalid) response capacity
        else if capability q.method = 0 then
          rpcRespond (rpcFailure q.method q.requestId .method) response capacity
        else if allowed &&& ~~~7 ≠ 0 ∨ allowed &&& capability q.method = 0 then
          rpcRespond (rpcFailure q.method q.requestId .forbidden) response capacity
        else
          match service with
          | none => rpcRespond (rpcFailure q.method q.requestId .unavailable) response capacity
          | some handle =>
              let room := min (capacity - rpcHeaderSize) rpcMaxPayload
              let reply := handle q (response.drop rpcHeaderSize) room
              rpcRespond (rpcAnswer q room reply)
                (response.take rpcHeaderSize ++ reply.memory) capacity

/-! ## Valid responses -/

/-- The codes of a failure: no payload is expected with them, by any method. -/
def RpcCode.fails : RpcCode → Bool
  | .ok | .atEnd | .detached => false
  | code => code.toWire < RpcCode.current.toWire

omit [Primitives] in
theorem RpcCode.fails_iff {code : RpcCode} : code.fails = true ↔
    code ≠ .ok ∧ code ≠ .atEnd ∧ code ≠ .detached ∧ code.toWire < RpcCode.current.toWire := by
  cases code <;> decide

theorem messageValid_failure (method : UInt16) (requestId : UInt64) {code : RpcCode}
    (h : code.fails = true) : messageValid (rpcFailure method requestId code) = true := by
  obtain ⟨hok, hend, hdetached, hplain⟩ := RpcCode.fails_iff.mp h
  have hplain : ¬ RpcCode.current.toWire ≤ code.toWire := by omega
  simp [messageValid, rpcFailure, exclusiveCode, hok, hend, hdetached, hplain]

/-- The codes `stn_rpc_decode` fails with. -/
theorem fails_of_decode {request : Bytes} {code : RpcCode} (h : rpcDecode request = .error code) :
    code.fails = true := by
  simp only [rpcDecode] at h
  split at h
  · obtain rfl := Except.error.inj h
    rfl
  split at h
  · obtain rfl := Except.error.inj h
    rfl
  split at h
  · obtain rfl := Except.error.inj h
    rfl
  split at h
  · obtain rfl := Except.error.inj h
    rfl
  split at h
  · obtain rfl := Except.error.inj h
    rfl
  · simp at h

/-- A response without payload under a code its method may answer with. -/
theorem messageValid_empty {method : UInt16} {requestId : UInt64} {code : RpcCode}
    (hexclusive : exclusiveCode code method = false) (hok : code ≠ .ok)
    (hrecovery : RpcCode.current.toWire ≤ code.toWire →
      recoveryResponse method code [] = true) :
    messageValid ⟨2, method, code, requestId, []⟩ = true := by
  by_cases hcurrent : RpcCode.current.toWire ≤ code.toWire
  · simp [messageValid, hexclusive, hcurrent, hrecovery hcurrent]
  · simp [messageValid, hexclusive, hcurrent, hok]

/-- A response that carries what the handler wrote. -/
theorem messageValid_payload {method : UInt16} {requestId : UInt64} {code : RpcCode} {p : Bytes}
    (hexclusive : exclusiveCode code method = false) (hsize : p.length ≤ rpcMaxPayload)
    (hok : code = .ok → responseShape method p = true)
    (hcarries : code.carriesPayload = true)
    (hrecovery : RpcCode.current.toWire ≤ code.toWire → recoveryResponse method code p = true) :
    messageValid ⟨2, method, code, requestId, p⟩ = true := by
  have hsize : ¬ p.length > rpcMaxPayload := by omega
  by_cases hcurrent : RpcCode.current.toWire ≤ code.toWire
  · simp [messageValid, hsize, hexclusive, hcurrent, hrecovery hcurrent]
  · have hcode : code = .ok := by
      cases code <;> simp_all [RpcCode.carriesPayload, RpcCode.toWire]
    have hshape := hok hcode
    subst hcode
    simp [messageValid, hsize, hexclusive, hcurrent, hshape]

/-- The recovery codes that carry nothing expect nothing. -/
theorem recoveryResponse_empty {method : UInt16} {code : RpcCode} {p : Bytes}
    (hcarries : code.carriesPayload = false) (h : recoveryResponse method code p = true) :
    recoveryResponse method code [] = true := by
  cases code <;> simp_all [recoveryResponse, RpcCode.carriesPayload]

/-- Whatever a handler left, the response made of it is valid. -/
theorem messageValid_answer (q : RpcMessage) {capacity : ℕ} (reply : RpcReply)
    (hcapacity : capacity ≤ rpcMaxPayload) : messageValid (rpcAnswer q capacity reply) = true := by
  by_cases hrefused : replyRefused q.method capacity reply = true
  · have hanswer : rpcAnswer q capacity reply = rpcFailure q.method q.requestId .provider := by
      simp [rpcAnswer, hrefused, rpcFailure, RpcCode.carriesPayload]
    rw [hanswer]
    exact messageValid_failure _ _ rfl
  · cases hcode : reply.code with
    | none => simp [replyRefused, hcode] at hrefused
    | some code =>
        simp only [replyRefused, hcode, Bool.or_eq_true, decide_eq_true_eq, Bool.and_eq_true,
          Bool.not_eq_true', not_or, not_and, not_lt, Bool.not_eq_true, Bool.not_eq_false]
          at hrefused
        obtain ⟨⟨⟨hexclusive, hwritten⟩, hrecovery⟩, hshape⟩ := hrefused
        have hsize : (reply.memory.take reply.written).length ≤ rpcMaxPayload := by
          have hle := List.length_take_le reply.written reply.memory
          omega
        have hanswer : rpcAnswer q capacity reply = ⟨2, q.method, code, q.requestId,
            if code.carriesPayload then reply.memory.take reply.written else []⟩ := by
          have hpass : replyRefused q.method capacity reply = false := by
            simp only [replyRefused, hcode, Bool.or_eq_false_iff, decide_eq_false_iff_not,
              Bool.and_eq_false_imp, decide_eq_true_eq, Bool.not_eq_false', not_lt]
            exact ⟨⟨⟨hexclusive, hwritten⟩, hrecovery⟩, hshape⟩
          simp [rpcAnswer, hpass, hcode]
        rw [hanswer]
        by_cases hcarries : code.carriesPayload = true
        · rw [if_pos hcarries]
          exact messageValid_payload hexclusive hsize hshape hcarries hrecovery
        · have hempty : code.carriesPayload = false := by simpa using hcarries
          rw [if_neg hcarries]
          apply messageValid_empty hexclusive
          · intro hok
            exact hcarries (hok ▸ rfl)
          · intro hcurrent
            exact recoveryResponse_empty hempty (hrecovery hcurrent)

theorem length_answer (q : RpcMessage) (capacity : ℕ) (reply : RpcReply) :
    (rpcAnswer q capacity reply).payload.length ≤ capacity := by
  by_cases hrefused : replyRefused q.method capacity reply = true
  · simp [rpcAnswer, hrefused, RpcCode.carriesPayload]
  · have hwritten : reply.written ≤ capacity := by
      cases hcode : reply.code with
      | none => simp [replyRefused, hcode] at hrefused
      | some code =>
          by_contra hexceeds
          simp [replyRefused, hcode, Nat.lt_of_not_le hexceeds] at hrefused
    simp only [rpcAnswer, if_neg hrefused]
    split
    · exact (List.length_take_le _ _).trans hwritten
    · simp

/-! ## Frames in the buffer -/

/-- What dispatch promises of the frame it leaves. -/
structure RpcOutcome.Answers (out : RpcOutcome) (r : RpcMessage) (response : Bytes)
    (capacity : ℕ) : Prop where
  code : out.code = .ok
  written : out.written ≤ capacity
  within : Buffer.Within capacity response out.memory
  decode : rpcDecode (out.memory.take out.written) = .ok r

/-- A valid response that fits is what the buffer then starts with. -/
theorem rpcRespond_answers {r : RpcMessage} {response memory : Bytes} {capacity : ℕ}
    (hvalid : messageValid r = true) (hfits : rpcHeaderSize + r.payload.length ≤ capacity)
    (hwithin : Buffer.Within capacity response memory) (hroom : capacity ≤ response.length) :
    (rpcRespond r memory capacity).Answers r response capacity := by
  have hcapacity : ¬(capacity < rpcHeaderSize ∨ r.payload.length > capacity - rpcHeaderSize) := by
    omega
  have hencode : rpcEncode r capacity = .ok (rpcHeaderBytes r ++ r.payload) := by
    simp [rpcEncode, hvalid, hcapacity]
  have hlength : (rpcHeaderBytes r ++ r.payload).length = rpcHeaderSize + r.payload.length := by
    simp
  have hmemory : capacity ≤ memory.length := by
    rw [hwithin.length]
    exact hroom
  have hrespond : rpcRespond r memory capacity =
      ⟨.ok, Buffer.overwrite memory 0 (rpcHeaderBytes r ++ r.payload),
        (rpcHeaderBytes r ++ r.payload).length⟩ := by
    simp [rpcRespond, hencode]
  rw [hrespond]
  refine ⟨rfl, ?_, ?_, ?_⟩
  · simpa using hfits
  · apply hwithin.trans
    apply Buffer.Within.overwrite _ hmemory
    rw [Nat.zero_add, hlength]
    exact hfits
  · rw [Buffer.take_overwrite_zero]
    exact rpcDecode_bytes hvalid

theorem rpcFailure_answers {response : Bytes} {capacity : ℕ} (method : UInt16)
    (requestId : UInt64) {code : RpcCode} (h : code.fails = true)
    (hcapacity : rpcHeaderSize ≤ capacity) (hroom : capacity ≤ response.length) :
    (rpcRespond (rpcFailure method requestId code) response capacity).Answers
      (rpcFailure method requestId code) response capacity := by
  apply rpcRespond_answers (messageValid_failure method requestId h) _ (Buffer.Within.refl _ _)
    hroom
  simpa [rpcFailure] using hcapacity

/-! ## Total framing -/

/-- The request a response answers: it has the identifier and the method of a request, and
neither when there was none. -/
def Answered (request : Bytes) (r : RpcMessage) : Prop :=
  r.kind = 2 ∧ ∀ q, rpcDecode request = .ok q → q.kind = 1 →
    r.requestId = q.requestId ∧ r.method = q.method

theorem answered_failure {request : Bytes} {q : RpcMessage} (h : rpcDecode request = .ok q)
    (code : RpcCode) : Answered request (rpcFailure q.method q.requestId code) := by
  refine ⟨rfl, ?_⟩
  intro q' hq' _
  obtain rfl := Except.ok.inj (h.symm.trans hq')
  exact ⟨rfl, rfl⟩

/-- Every frame dispatch leaves is a valid response, by the branch that made it. -/
theorem rpcDispatch_answers (request : Bytes) (allowed : UInt32) (service : Option RpcHandler)
    (response : Bytes) {capacity : ℕ} (hcapacity : rpcHeaderSize ≤ capacity)
    (hroom : capacity ≤ response.length) (hbounded : ∀ handle ∈ service, handle.Bounded) :
    ∃ r, (rpcDispatch request allowed service response capacity).Answers r response capacity ∧
      Answered request r := by
  simp only [rpcDispatch, if_neg (Nat.not_lt.mpr hcapacity)]
  split
  · next code hdecode =>
      refine ⟨_, rpcFailure_answers 0 0 (fails_of_decode hdecode) hcapacity hroom, rfl, ?_⟩
      intro q hq
      simp [hdecode] at hq
  next q hdecode =>
  split
  · next hkind =>
      refine ⟨_, rpcFailure_answers 0 0 rfl hcapacity hroom, rfl, ?_⟩
      intro q' hq' hkind'
      obtain rfl := Except.ok.inj (hdecode.symm.trans hq')
      exact absurd hkind' hkind
  split
  · exact ⟨_, rpcFailure_answers _ _ rfl hcapacity hroom, answered_failure hdecode _⟩
  split
  · exact ⟨_, rpcFailure_answers _ _ rfl hcapacity hroom, answered_failure hdecode _⟩
  split
  · exact ⟨_, rpcFailure_answers _ _ rfl hcapacity hroom, answered_failure hdecode _⟩
  next handle =>
  have hheader : rpcHeaderSize ≤ response.length := Nat.le_trans hcapacity hroom
  have hlimit : min (capacity - rpcHeaderSize) rpcMaxPayload ≤ capacity - rpcHeaderSize :=
    Nat.min_le_left _ _
  have hsize : min (capacity - rpcHeaderSize) rpcMaxPayload ≤
      (response.drop rpcHeaderSize).length := by
    rw [List.length_drop]
    omega
  have hwithin := (hbounded handle rfl q _ _ hsize).behind hheader
  refine ⟨_, rpcRespond_answers (messageValid_answer q _ (Nat.min_le_right _ _)) ?_
    (hwithin.mono (by omega)) hroom, rfl, ?_⟩
  · have hpayload := length_answer q (min (capacity - rpcHeaderSize) rpcMaxPayload)
      (handle q (response.drop rpcHeaderSize) (min (capacity - rpcHeaderSize) rpcMaxPayload))
    omega
  · intro q' hq' _
    obtain rfl := Except.ok.inj (hdecode.symm.trans hq')
    exact ⟨rfl, rfl⟩

/-- Whatever the request and whatever a handler does within its capacity, dispatch leaves
within the capacity a frame that decodes as the response to the request. -/
theorem rpc_framing_total (request : Bytes) (allowed : UInt32) (service : Option RpcHandler)
    (response : Bytes) (capacity : ℕ) (hcapacity : rpcHeaderSize ≤ capacity)
    (hroom : capacity ≤ response.length) (hbounded : ∀ handle ∈ service, handle.Bounded) :
    let out := rpcDispatch request allowed service response capacity
    out.code = .ok ∧ out.written ≤ capacity ∧ Buffer.Within capacity response out.memory ∧
      ∃ r, rpcDecode (out.memory.take out.written) = .ok r ∧ r.kind = 2 ∧
        ∀ q, rpcDecode request = .ok q → q.kind = 1 →
          r.requestId = q.requestId ∧ r.method = q.method := by
  obtain ⟨r, hanswers, hkind, hecho⟩ :=
    rpcDispatch_answers request allowed service response hcapacity hroom hbounded
  exact ⟨hanswers.code, hanswers.written, hanswers.within, r, hanswers.decode, hkind, hecho⟩

end

section Sample

namespace Sample

/-- Primitives under which every span has one digest and no signature verifies. -/
@[reducible] def answering : Primitives where
  sha256 _ _ := .ok 0
  ed25519Verify _ _ _ := false

attribute [local instance] answering

/-- A request for the node's summary. -/
def summaryRequest : Bytes :=
  rpcHeaderBytes ⟨1, 1, .ok, 7, []⟩

/-- A handler that fills all it was given and reports more than that. -/
def overreaching : RpcHandler := fun _ memory capacity =>
  ⟨some .ok, Buffer.overwrite memory 0 (List.replicate capacity 255), capacity + 1⟩

theorem overreaching_bounded : overreaching.Bounded := by
  intro q memory capacity hcapacity
  apply Buffer.Within.overwrite _ hcapacity
  simp

end Sample

attribute [local instance] Sample.answering

/-- A request the node understands, and a handler that reports more than its capacity: the
answer is the provider error for that request. -/
example : (rpcDispatch Sample.summaryRequest rpcRead (some Sample.overreaching)
    (List.replicate 40 0) 40).memory.take 24 = rpcHeaderBytes (rpcFailure 1 7 .provider) := by
  decide +kernel

theorem sample_rpc_framing_total :
    let out := rpcDispatch Sample.summaryRequest rpcRead (some Sample.overreaching)
      (List.replicate 40 0) 40
    out.code = .ok ∧ out.written ≤ 40 ∧ Buffer.Within 40 (List.replicate 40 0) out.memory ∧
      ∃ r, rpcDecode (out.memory.take out.written) = .ok r ∧ r.kind = 2 ∧
        ∀ q, rpcDecode Sample.summaryRequest = .ok q → q.kind = 1 →
          r.requestId = q.requestId ∧ r.method = q.method := by
  apply rpc_framing_total _ _ _ _ _ (by decide) (by simp)
  intro handle hhandle
  obtain rfl := Option.some.inj hhandle
  exact Sample.overreaching_bounded

end Sample

end StnChain
