import StnChain.Adopt
import StnChain.Peer.Serve
import StnChain.Support.Buffer

/-!
# Peer sessions

`stn_peer_serve` over a whole session and with the buffer it answers into.  A session
is given any frames, each with the history it is served from at that time.  It answers
nothing before it has accepted a greeting of its own chain, nothing after it is closed,
its peer addresses once, and every other answer from the history served.
-/

namespace StnChain

section

variable [Primitives]

/-! ## Calls and replies -/

/-- One call: the history served, the frame received and the response buffer, as long as
its capacity. -/
structure PeerCall where
  blocks : List Bytes
  request : Bytes
  response : Bytes

/-- What a call leaves: the session, the status, the response buffer and the length
reported. -/
structure PeerReply where
  session : PeerSession
  status : Except PeerStatus Unit
  response : Bytes
  written : ℕ

/-- A call that fails leaves the buffer alone. -/
def PeerCall.refused (call : PeerCall) (session : PeerSession) (status : PeerStatus) : PeerReply :=
  ⟨session, .error status, call.response, 0⟩

/-- The end of `stn_peer_serve`: the payload is in place behind the header when
`stn_peer_encode` checks it. -/
def PeerCall.encode (call : PeerCall) (session : PeerSession) (answer : PeerMessage) : PeerReply :=
  let response := Buffer.overwrite call.response peerHeaderSize answer.payload
  match peerEncode answer.type answer.payload call.response.length with
  | .error status => ⟨session, .error status, response, 0⟩
  | .ok frame =>
      ⟨session.answered, .ok (), Buffer.overwrite response 0 (frame.take peerHeaderSize),
        frame.length⟩

/-- `stn_peer_serve`, with its response buffer. -/
def peerServeCall (c : ChainContext) (session : PeerSession) (call : PeerCall) : PeerReply :=
  if session.handshake = .closed then call.refused session .protocol
  else
    match peerDecode call.request with
    | .error status => call.refused session.close status
    | .ok m =>
        match peerValidate c call.blocks with
        | .error status => call.refused session status
        | .ok s =>
            if call.response.length < peerHeaderSize + 68 then call.refused session .capacity
            else
              match
                if session.handshake = .awaited then peerGreet c session m
                else peerAnswer call.blocks s session m call.response.length
              with
              | (session, .error status) => call.refused session status
              | (session, .ok answer) => call.encode session answer

/-- The session after some calls. -/
def peerSessionRun (c : ChainContext) (session : PeerSession) (calls : List PeerCall) :
    PeerSession :=
  calls.foldl (fun session call => (peerServeCall c session call).session) session

/-- A session before its first frame. -/
structure PeerSession.Fresh (session : PeerSession) : Prop where
  handshake : session.handshake = .awaited
  discovery : session.discoverySent = false

/-- A reply that carries a message in its frame. -/
def PeerReply.Answers (reply : PeerReply) (m : PeerMessage) : Prop :=
  reply.status = .ok () ∧ peerDecode (reply.response.take reply.written) = .ok m

/-- The frame of a greeting: the protocol version of the frame, the network, the genesis
block and the version of the greeting are the node's. -/
def Greets (c : ChainContext) (request : Bytes) : Prop :=
  ∃ greeting, peerHello c = .ok greeting ∧ peerDecode request = .ok ⟨.hello, greeting⟩

/-! ## What an answer holds -/

variable {c : ChainContext} {session session' : PeerSession} {call : PeerCall}

omit [Primitives] in
theorem length_headersBytes {blocks : List Bytes} (h : ∀ bytes ∈ blocks, Storable bytes) :
    (headersBytes blocks).length = blocks.length * blockHeaderSize := by
  induction blocks with
  | nil => simp [headersBytes]
  | cons bytes rest ih =>
      have hrest := ih fun other hother => h other (List.mem_cons_of_mem bytes hother)
      have hmin := (h bytes List.mem_cons_self).1
      simp only [headersBytes, List.flatMap_cons, List.length_append, List.length_take,
        List.length_cons] at *
      rw [hrest, min_eq_left hmin, Nat.succ_mul, Nat.add_comm]

theorem peerValidate_eq_ok {blocks : List Bytes} {s : ChainState}
    (h : peerValidate c blocks = .ok s) : Accepts c blocks s ∧ blocks.length < 2 ^ 32 := by
  simp only [peerValidate] at h
  split at h
  · simp at h
  next hguard =>
  split at h
  · simp at h
  next r s' hreconstruct =>
  obtain rfl := Except.ok.inj h
  exact ⟨accepts_of_state hreconstruct, by omega⟩

/-- The greeting of the node. -/
theorem length_peerHello {greeting : Bytes} (h : peerHello c = .ok greeting) :
    greeting.length = 68 := by
  simp only [peerHello] at h
  split at h
  · simp at h
  · obtain rfl := Except.ok.inj h
    simp

/-- What the first frame of a session is answered with. -/
theorem peerGreet_cases (c : ChainContext) (session : PeerSession) (m : PeerMessage) :
    (∃ status, peerGreet c session m = (session.close, .error status) ∧
      (status = .protocol ∨ status = .network)) ∨
    (peerGreet c session m = (session, .error .validation)) ∨
    (∃ greeting capability, peerHello c = .ok greeting ∧ m = ⟨.hello, greeting⟩ ∧
      peerGreet c session m =
        (session, .ok ⟨.hello, greeting.take 64 ++ wireWrite 4 capability⟩)) := by
  obtain ⟨type, payload⟩ := m
  simp only [peerGreet]
  split
  · exact .inl ⟨_, rfl, .inl rfl⟩
  next hshape =>
  obtain ⟨htype, -⟩ := not_or.mp hshape
  obtain rfl := not_not.mp htype
  split
  · next status hhello =>
      have hstatus : status = .validation := by
        simp only [peerHello] at hhello
        split at hhello
        · exact (Except.error.inj hhello).symm
        · simp at hhello
      exact .inr (.inl (by rw [hstatus]))
  next greeting hhello =>
  split
  · exact .inl ⟨_, rfl, .inr rfl⟩
  next hsame =>
  obtain rfl := not_not.mp hsame
  exact .inr (.inr ⟨_, _, hhello, rfl, rfl⟩)

/-- The answers of a session that has been greeted, to the history served. -/
inductive Serves (blocks : List Bytes) (s : ChainState) (session : PeerSession) :
    PeerMessage → PeerSession → PeerMessage → Prop
  | peers {known : List PeerEndpoint} {payload : Bytes} {capacity : ℕ}
      (shared : session.known = some known) (unsent : session.discoverySent = false)
      (encoded : peerDiscoveryEncode known session.self capacity = .ok payload) :
      Serves blocks s session ⟨.getPeers, []⟩ { session with discoverySent := true }
        ⟨.peers, payload⟩
  | state : Serves blocks s session ⟨.state, []⟩ session ⟨.state, peerSummary s blocks.length⟩
  | headers {start num : ℕ} (positive : 0 < num) (page : num ≤ 64)
      (served : start + num ≤ blocks.length) :
      Serves blocks s session ⟨.getHeaders, wireWrite 4 start ++ wireWrite 4 num⟩ session
        ⟨.headers, wireWrite 4 start ++ wireWrite 4 num ++
          headersBytes ((blocks.drop start).take num)⟩
  | block {start : ℕ} {bytes : Bytes} (served : blocks[start]? = some bytes) :
      Serves blocks s session ⟨.getBlock, wireWrite 4 start⟩ session
        ⟨.block, wireWrite 4 start ++ bytes⟩

/-- An answer that `stn_peer_encode` accepts for a buffer. -/
structure Encodable (capacity : ℕ) (answer : PeerMessage) : Prop where
  size : answer.payload.length ≤ peerMaxPayload
  discovery : discoverySize answer.type answer.payload.length = true
  room : peerHeaderSize + answer.payload.length ≤ capacity

omit [Primitives] in
/-- What a discovery payload is made of keeps its size within the protocol. -/
theorem peerDiscoveryEncode_encodable {set : List PeerEndpoint} {self : Option PeerEndpoint}
    {capacity : ℕ} {payload : Bytes} (hroom : peerHeaderSize ≤ capacity)
    (h : peerDiscoveryEncode set self (capacity - peerHeaderSize) = .ok payload) :
    Encodable capacity ⟨.peers, payload⟩ := by
  simp only [peerDiscoveryEncode] at h
  split at h
  · simp at h
  next hcount =>
  split at h
  · simp at h
  split at h
  · simp at h
  next hcapacity =>
  obtain rfl := Except.ok.inj h
  have hkept : (set.filter fun p => self ≠ some p).length ≤ 64 :=
    (List.length_filter_le _ _).trans (Nat.le_of_not_lt (not_or.mp hcount).1)
  rw [length_discoveryBytes] at hcapacity
  have hlow : 2 + 6 * 64 ≤ peerMaxPayload := by decide
  refine ⟨?_, ?_, ?_⟩
  · simp only [length_discoveryBytes]
    omega
  · simp only [discoverySize, length_discoveryBytes, peerDiscoveryMax, peerCandidateMax,
      Bool.and_eq_true, decide_eq_true_eq]
    omega
  · simp only [length_discoveryBytes]
    omega

/-- What a later frame of a session is answered with. -/
theorem peerAnswer_cases {blocks : List Bytes} {s : ChainState} (haccepts : Accepts c blocks s)
    (session : PeerSession) (m : PeerMessage) {capacity : ℕ} (hroom : peerHeaderSize ≤ capacity) :
    peerAnswer blocks s session m capacity = (session.close, .error .protocol) ∨
    (∃ status, peerAnswer blocks s session m capacity = (session, .error status) ∧
      status ≠ .protocol ∧ status ≠ .network) ∨
    (∃ next answer, peerAnswer blocks s session m capacity = (next, .ok answer) ∧
      Serves blocks s session m next answer ∧ Encodable capacity answer) := by
  have hstorable := (accepts_iff.mp haccepts).2.storable
  obtain ⟨type, payload⟩ := m
  cases type
  case getPeers =>
    simp only [peerAnswer]
    split
    · exact .inl rfl
    next known hknown =>
    by_cases hbad : payload ≠ [] ∨ session.discoverySent = true
    · exact .inl (if_pos hbad)
    rw [if_neg hbad]
    obtain ⟨hpayload, hunsent⟩ := not_or.mp hbad
    obtain rfl := not_not.mp hpayload
    split
    · next status hencode =>
        refine .inr (.inl ⟨status, rfl, ?_⟩)
        simp only [peerDiscoveryEncode] at hencode
        split at hencode
        · simp [← Except.error.inj hencode]
        split at hencode
        · simp [← Except.error.inj hencode]
        split at hencode
        · simp [← Except.error.inj hencode]
        · simp at hencode
    · next payload hencode =>
        exact .inr (.inr ⟨_, _, rfl, .peers hknown (by simpa using hunsent) hencode,
          peerDiscoveryEncode_encodable hroom hencode⟩)
  case state =>
    simp only [peerAnswer]
    by_cases hbad : payload ≠ []
    · exact .inl (if_pos hbad)
    rw [if_neg hbad]
    obtain rfl := not_not.mp hbad
    by_cases hsmall : capacity < 96
    · exact .inr (.inl ⟨.capacity, if_pos hsmall, by simp⟩)
    rw [if_neg hsmall]
    have hlength : (peerSummary s blocks.length).length = 84 := by simp [peerSummary]
    have hlow : 84 ≤ peerMaxPayload := by decide
    refine .inr (.inr ⟨_, _, rfl, .state, ?_, rfl, ?_⟩)
    · simpa only [hlength] using hlow
    · simp only [hlength, peerHeaderSize]
      omega
  case getHeaders =>
    simp only [peerAnswer]
    by_cases hshape : payload.length ≠ 8
    · exact .inl (if_pos hshape)
    rw [if_neg hshape]
    split
    · exact .inl rfl
    next hrange =>
    split
    · exact .inr (.inl ⟨.capacity, rfl, by simp⟩)
    next hcapacity =>
    have hlength := not_not.mp hshape
    obtain ⟨hstart, hpositive, hpage, hserved⟩ : wireRead payload 0 4 < blocks.length ∧
        0 < wireRead payload 4 4 ∧ wireRead payload 4 4 ≤ 64 ∧
        wireRead payload 0 4 + wireRead payload 4 4 ≤ blocks.length := by omega
    have hpayload : payload = wireWrite 4 (wireRead payload 0 4) ++
        wireWrite 4 (wireRead payload 4 4) := by
      rw [wireWrite_wireRead (by omega), wireWrite_wireRead (by omega),
        BigEndian.field_append_field payload 0 4 4, BigEndian.field, List.drop_zero,
        List.take_of_length_le (by omega)]
    generalize wireRead payload 0 4 = start at *
    generalize wireRead payload 4 4 = num at *
    subst hpayload
    have hheaders : (headersBytes ((blocks.drop start).take num)).length =
        num * blockHeaderSize := by
      rw [length_headersBytes fun bytes h => hstorable bytes
          (List.mem_of_mem_drop (List.mem_of_mem_take h)), List.length_take, List.length_drop,
        min_eq_left (by omega)]
    have hlow : 8 + 64 * blockHeaderSize ≤ peerMaxPayload := by decide
    have hmost := Nat.mul_le_mul_right blockHeaderSize hpage
    refine .inr (.inr ⟨_, _, rfl, .headers hpositive hpage hserved, ?_, rfl, ?_⟩)
    · simp only [List.length_append, length_wireWrite, hheaders]
      omega
    · simp only [List.length_append, length_wireWrite, hheaders]
      omega
  case getBlock =>
    simp only [peerAnswer]
    by_cases hshape : payload.length ≠ 4
    · exact .inl (if_pos hshape)
    rw [if_neg hshape]
    have hlength := not_not.mp hshape
    have hpayload : payload = wireWrite 4 (wireRead payload 0 4) := by
      rw [wireWrite_wireRead (by omega), BigEndian.field, List.drop_zero,
        List.take_of_length_le (by omega)]
    generalize wireRead payload 0 4 = start at *
    subst hpayload
    split
    · exact .inl rfl
    next bytes hserved =>
    split
    · exact .inr (.inl ⟨.capacity, rfl, by simp⟩)
    next hcapacity =>
    have hmax := (hstorable bytes (List.mem_of_getElem? hserved)).2
    refine .inr (.inr ⟨_, _, rfl, .block hserved, ?_, rfl, ?_⟩)
    · simp only [List.length_append, length_wireWrite, peerMaxPayload]
      omega
    · simp only [List.length_append, length_wireWrite]
      omega
  all_goals exact .inl rfl

/-! ## The outcomes of a call -/

/-- The reply that carries an answer. -/
def PeerCall.answered (call : PeerCall) (next : PeerSession) (answer : PeerMessage) : PeerReply :=
  let frame := peerHeaderBytes answer.type answer.payload.length ++ answer.payload
  ⟨next.answered, .ok (), Buffer.overwrite call.response 0 frame, frame.length⟩

omit [Primitives] in
theorem PeerCall.encode_eq {next : PeerSession} {answer : PeerMessage}
    (h : Encodable call.response.length answer) :
    call.encode next answer = call.answered next answer := by
  obtain ⟨hsize, hdiscovery, hroom⟩ := h
  have hheader := length_peerHeaderBytes answer.type answer.payload.length
  have hfits : ¬(answer.payload.length > peerMaxPayload ∨
      (!discoverySize answer.type answer.payload.length) = true) := by
    simp only [hdiscovery, Bool.not_true, Bool.false_eq_true, or_false]
    omega
  have hcapacity : ¬(call.response.length < peerHeaderSize ∨
      answer.payload.length > call.response.length - peerHeaderSize) := by omega
  have hwrites := Buffer.overwrite_header_body call.response
    (peerHeaderBytes answer.type answer.payload.length) answer.payload (by rw [hheader]; omega)
  rw [hheader] at hwrites
  simp only [PeerCall.encode, PeerCall.answered, peerEncode, if_neg hfits, if_neg hcapacity,
    List.take_left' hheader, hwrites]

omit [Primitives] in
/-- A reply carries the answer it was made of and no other. -/
theorem PeerCall.answered_answers_iff {next : PeerSession} {answer m : PeerMessage}
    (h : Encodable call.response.length answer) :
    (call.answered next answer).Answers m ↔ m = answer := by
  have hencode : peerEncode answer.type answer.payload
      (peerHeaderSize + answer.payload.length) =
      .ok (peerHeaderBytes answer.type answer.payload.length ++ answer.payload) := by
    obtain ⟨hsize, hdiscovery, -⟩ := h
    simp [peerEncode, hdiscovery, hsize]
  have hdecode := peerDecode_of_encode hencode
  simp only [PeerReply.Answers, PeerCall.answered, Buffer.take_overwrite_zero, hdecode, true_and]
  constructor
  · intro hm
    exact (Except.ok.inj hm).symm
  · rintro rfl
    rfl

/-- The outcomes of a call on a session. -/
inductive CallOutcome (c : ChainContext) (session : PeerSession) (call : PeerCall) :
    PeerReply → Prop
  | closed (h : session.handshake = .closed) :
      CallOutcome c session call (call.refused session .protocol)
  | ended {status : PeerStatus} (h : status = .protocol ∨ status = .network) :
      CallOutcome c session call (call.refused session.close status)
  | failed {status : PeerStatus} (h : status ≠ .protocol ∧ status ≠ .network) :
      CallOutcome c session call (call.refused session status)
  | greeted {payload : Bytes} (awaited : session.handshake = .awaited)
      (greets : Greets c call.request) (room : Encodable call.response.length ⟨.hello, payload⟩) :
      CallOutcome c session call (call.answered session ⟨.hello, payload⟩)
  | served {m answer : PeerMessage} {s : ChainState} {next : PeerSession}
      (established : session.handshake = .established) (request : peerDecode call.request = .ok m)
      (history : Accepts c call.blocks s) (count : call.blocks.length < 2 ^ 32)
      (serves : Serves call.blocks s session m next answer)
      (room : Encodable call.response.length answer) :
      CallOutcome c session call (call.answered next answer)

omit [Primitives] in
theorem peerDecode_eq_error {bytes : Bytes} {status : PeerStatus}
    (h : peerDecode bytes = .error status) : status = .protocol := by
  simp only [peerDecode, peerHeader] at h
  split at h
  · exact (Except.error.inj h).symm
  split at h
  · next hheader =>
      obtain rfl := Except.error.inj h
      split at hheader
      · exact (Except.error.inj hheader).symm
      split at hheader
      · exact (Except.error.inj hheader).symm
      split at hheader
      · exact (Except.error.inj hheader).symm
      · simp at hheader
  split at h
  · exact (Except.error.inj h).symm
  · simp at h

/-- Every call has one of these outcomes. -/
theorem peerServeCall_outcome (c : ChainContext) (session : PeerSession) (call : PeerCall) :
    CallOutcome c session call (peerServeCall c session call) := by
  simp only [peerServeCall]
  by_cases hclosed : session.handshake = .closed
  · rw [if_pos hclosed]
    exact .closed hclosed
  rw [if_neg hclosed]
  split
  · next status hdecode => exact .ended (.inl (peerDecode_eq_error hdecode))
  next m hrequest =>
  split
  · next status hvalid =>
      have hstatus : status = .validation := by
        simp only [peerValidate] at hvalid
        split at hvalid
        · exact (Except.error.inj hvalid).symm
        split at hvalid
        · exact (Except.error.inj hvalid).symm
        · simp at hvalid
      exact .failed (by simp [hstatus])
  next s hvalid =>
  obtain ⟨haccepts, hcount⟩ := peerValidate_eq_ok hvalid
  by_cases hsmall : call.response.length < peerHeaderSize + 68
  · rw [if_pos hsmall]
    exact .failed (by simp)
  rw [if_neg hsmall]
  by_cases hawaited : session.handshake = .awaited
  · simp only [if_pos hawaited]
    obtain ⟨status, hgreet, hstatus⟩ | hgreet | ⟨greeting, capability, hhello, rfl, hgreet⟩ :=
      peerGreet_cases c session m
    · rw [hgreet]
      exact .ended hstatus
    · rw [hgreet]
      exact .failed (by simp)
    · have hlength : (greeting.take 64 ++ wireWrite 4 capability).length = 68 := by
        rw [List.length_append, List.length_take, length_peerHello hhello, length_wireWrite]
        rfl
      have hlow : 68 ≤ peerMaxPayload := by decide
      have hencodable : Encodable call.response.length
          ⟨.hello, greeting.take 64 ++ wireWrite 4 capability⟩ := by
        refine ⟨?_, rfl, ?_⟩
        · simpa only [hlength] using hlow
        · simp only [hlength]
          omega
      simp only [hgreet, PeerCall.encode_eq hencodable]
      exact .greeted hawaited ⟨greeting, hhello, hrequest⟩ hencodable
  · simp only [if_neg hawaited]
    have hestablished : session.handshake = .established := by
      cases hhandshake : session.handshake with
      | closed => exact absurd hhandshake hclosed
      | awaited => exact absurd hhandshake hawaited
      | established => rfl
    have hroom : peerHeaderSize ≤ call.response.length := by omega
    obtain hanswer | ⟨status, hanswer, hstatus⟩ | ⟨next, answer, hanswer, hserves, hencodable⟩ :=
      peerAnswer_cases haccepts session m hroom
    · rw [hanswer]
      exact .ended (.inl rfl)
    · rw [hanswer]
      exact .failed hstatus
    · simp only [hanswer, PeerCall.encode_eq hencodable]
      exact .served hestablished hrequest haccepts hcount hserves hencodable

/-! ## The course of a session -/

theorem peerSessionRun_snoc (c : ChainContext) (session : PeerSession) (calls : List PeerCall)
    (call : PeerCall) : peerSessionRun c session (calls ++ [call]) =
      (peerServeCall c (peerSessionRun c session calls) call).session := by
  simp [peerSessionRun]

theorem peerSessionRun_append (c : ChainContext) (session : PeerSession)
    (before after : List PeerCall) : peerSessionRun c session (before ++ after) =
      peerSessionRun c (peerSessionRun c session before) after :=
  List.foldl_append ..

/-- Some call of a session was answered as the greeting of the node's chain. -/
def Greeted (c : ChainContext) (session : PeerSession) (calls : List PeerCall) : Prop :=
  ∃ before hello after, calls = before ++ hello :: after ∧ Greets c hello.request ∧
    (peerServeCall c (peerSessionRun c session before) hello).status = .ok ()

variable {reply : PeerReply}

/-- A session becomes established by a greeting only. -/
theorem CallOutcome.established (h : CallOutcome c session call reply)
    (hafter : reply.session.handshake = .established) :
    session.handshake = .established ∨ (Greets c call.request ∧ reply.status = .ok ()) := by
  cases h with
  | closed h => exact .inl hafter
  | ended h => simp [PeerCall.refused, PeerSession.close] at hafter
  | failed h => exact .inl hafter
  | greeted awaited greets room => exact .inr ⟨greets, rfl⟩
  | served established request history count serves room => exact .inl established

/-- A success is an answer to the greeting, or to a later frame of an established session. -/
theorem CallOutcome.ok (h : CallOutcome c session call reply) (hok : reply.status = .ok ()) :
    (∃ answer, reply.Answers answer) ∧
      (Greets c call.request ∨ session.handshake = .established) := by
  cases h with
  | closed h => simp [PeerCall.refused] at hok
  | ended h => simp [PeerCall.refused] at hok
  | failed h => simp [PeerCall.refused] at hok
  | greeted awaited greets room =>
      exact ⟨⟨_, (PeerCall.answered_answers_iff room).mpr rfl⟩, .inl greets⟩
  | served established request history count serves room =>
      exact ⟨⟨_, (PeerCall.answered_answers_iff room).mpr rfl⟩, .inr established⟩

/-- A failure writes nothing. -/
theorem CallOutcome.error (h : CallOutcome c session call reply) {status : PeerStatus}
    (herror : reply.status = .error status) :
    reply.response = call.response ∧ reply.written = 0 := by
  cases h with
  | closed h => exact ⟨rfl, rfl⟩
  | ended h => exact ⟨rfl, rfl⟩
  | failed h => exact ⟨rfl, rfl⟩
  | greeted awaited greets room => simp [PeerCall.answered] at herror
  | served established request history count serves room => simp [PeerCall.answered] at herror

/-- A malformed frame or a foreign greeting leaves the session closed. -/
theorem CallOutcome.closed_of_status (h : CallOutcome c session call reply)
    (hstatus : reply.status = .error .protocol ∨ reply.status = .error .network) :
    reply.session.handshake = .closed := by
  cases h with
  | closed h => exact h
  | ended h => rfl
  | failed h => simp [PeerCall.refused, h.1, h.2] at hstatus
  | greeted awaited greets room => simp [PeerCall.answered] at hstatus
  | served established request history count serves room => simp [PeerCall.answered] at hstatus

/-- Peer addresses are served by a session that has not served them and are marked as
served from then on. -/
theorem CallOutcome.discovery (h : CallOutcome c session call reply) :
    (session.discoverySent = true → reply.session.discoverySent = true) ∧
      ∀ answer, reply.Answers answer → answer.type = .peers →
        session.discoverySent = false ∧ reply.session.discoverySent = true := by
  cases h with
  | closed h => exact ⟨id, fun answer hanswers => by
      simp [PeerReply.Answers, PeerCall.refused] at hanswers⟩
  | ended h => exact ⟨id, fun answer hanswers => by
      simp [PeerReply.Answers, PeerCall.refused] at hanswers⟩
  | failed h => exact ⟨id, fun answer hanswers => by
      simp [PeerReply.Answers, PeerCall.refused] at hanswers⟩
  | greeted awaited greets room =>
      refine ⟨id, fun answer hanswers htype => ?_⟩
      obtain rfl := (PeerCall.answered_answers_iff room).mp hanswers
      simp at htype
  | served established request history count serves room =>
      cases serves with
      | peers shared unsent encoded => exact ⟨fun _ => rfl, fun answer hanswers _ => ⟨unsent, rfl⟩⟩
      | state | headers positive page served | block served =>
          refine ⟨id, fun answer hanswers htype => ?_⟩
          obtain rfl := (PeerCall.answered_answers_iff room).mp hanswers
          simp at htype

/-- The exact content of an answer about a history, read from the history served. -/
structure Images (c : ChainContext) (call : PeerCall) (answer : PeerMessage) : Prop where
  state : answer.type = .state → ∃ s, Accepts c call.blocks s ∧
    s.height.toNat + 1 = call.blocks.length ∧ call.blocks.length < 2 ^ 32 ∧
    (∀ past bytes, call.blocks = past ++ [bytes] →
      chainBlockId bytes c.hashProvider = .ok s.tipId) ∧
    answer.payload = wireWrite 8 s.height.toNat ++ octetBytes s.tipId ++
      octetBytes s.cumulativeWork ++ wireWrite 4 call.blocks.length
  headers : answer.type = .headers → ∃ start num, 0 < num ∧ num ≤ 64 ∧
    start + num ≤ call.blocks.length ∧
    peerDecode call.request = .ok ⟨.getHeaders, wireWrite 4 start ++ wireWrite 4 num⟩ ∧
    answer.payload = wireWrite 4 start ++ wireWrite 4 num ++
      headersBytes ((call.blocks.drop start).take num)
  block : answer.type = .block → ∃ start bytes, call.blocks[start]? = some bytes ∧
    peerDecode call.request = .ok ⟨.getBlock, wireWrite 4 start⟩ ∧
    answer.payload = wireWrite 4 start ++ bytes

theorem CallOutcome.images (h : CallOutcome c session call reply) {answer : PeerMessage}
    (hanswers : reply.Answers answer) : Images c call answer := by
  cases h with
  | closed h => simp [PeerReply.Answers, PeerCall.refused] at hanswers
  | ended h => simp [PeerReply.Answers, PeerCall.refused] at hanswers
  | failed h => simp [PeerReply.Answers, PeerCall.refused] at hanswers
  | greeted awaited greets room =>
      obtain rfl := (PeerCall.answered_answers_iff room).mp hanswers
      constructor <;> exact fun htype => absurd htype (by simp)
  | served established request history count serves room =>
      obtain rfl := (PeerCall.answered_answers_iff room).mp hanswers
      cases serves with
      | peers shared unsent encoded => constructor <;> exact fun htype => absurd htype (by simp)
      | state =>
          obtain ⟨hne, hreach⟩ := accepts_iff.mp history
          refine ⟨fun _ => ⟨_, history, hreach.tipOf.height hne, count, hreach.tipOf.tipId, rfl⟩,
            fun htype => absurd htype (by simp), fun htype => absurd htype (by simp)⟩
      | headers positive page served =>
          exact ⟨fun htype => absurd htype (by simp),
            fun _ => ⟨_, _, positive, page, served, request, rfl⟩,
            fun htype => absurd htype (by simp)⟩
      | block served =>
          exact ⟨fun htype => absurd htype (by simp), fun htype => absurd htype (by simp),
            fun _ => ⟨_, _, served, request, rfl⟩⟩

theorem peerSessionRun_established (hawaited : session.handshake = .awaited)
    (calls : List PeerCall)
    (h : (peerSessionRun c session calls).handshake = .established) : Greeted c session calls := by
  induction calls using List.reverseRecOn with
  | nil => exact absurd (hawaited.symm.trans h) (by decide)
  | append_singleton calls call ih =>
      rw [peerSessionRun_snoc] at h
      rcases (peerServeCall_outcome c _ call).established h with hbefore | ⟨hgreets, hok⟩
      · obtain ⟨before, hello, after, rfl, hgreeted⟩ := ih hbefore
        exact ⟨before, hello, after ++ [call], by simp, hgreeted⟩
      · exact ⟨calls, call, [], rfl, hgreets, hok⟩

/-- A closed session stays closed. -/
theorem peerSessionRun_closed (h : session.handshake = .closed) (calls : List PeerCall) :
    (peerSessionRun c session calls).handshake = .closed := by
  induction calls using List.reverseRecOn with
  | nil => exact h
  | append_singleton calls call ih =>
      rw [peerSessionRun_snoc, peerServeCall, if_pos ih]
      exact ih

theorem peerSessionRun_discovery (h : session.discoverySent = true) (calls : List PeerCall) :
    (peerSessionRun c session calls).discoverySent = true := by
  induction calls using List.reverseRecOn with
  | nil => exact h
  | append_singleton calls call ih =>
      rw [peerSessionRun_snoc]
      exact (peerServeCall_outcome c _ call).discovery.1 ih

/-- What holds of every call of a session, whatever came before: it is answered only if
it greets or a greeting was accepted; a failure writes nothing; a malformed frame or a
foreign greeting closes the session, and then nothing is written; peer addresses are
served once; and an answer about the history is its exact image. -/
theorem peer_session_gated (hfresh : session.Fresh) {before : List PeerCall}
    (hreply : peerServeCall c (peerSessionRun c session before) call = reply) :
    (reply.status = .ok () →
      (∃ answer, reply.Answers answer) ∧ (Greets c call.request ∨ Greeted c session before)) ∧
    (∀ status, reply.status = .error status →
      reply.response = call.response ∧ reply.written = 0) ∧
    (reply.status = .error .protocol ∨ reply.status = .error .network →
      ∀ between later, peerServeCall c
        (peerSessionRun c session (before ++ call :: between)) later =
          later.refused (peerSessionRun c session (before ++ call :: between)) .protocol) ∧
    (∀ answer, reply.Answers answer → answer.type = .peers →
      ∀ between later answer', (peerServeCall c
        (peerSessionRun c session (before ++ call :: between)) later).Answers answer' →
          answer'.type ≠ .peers) ∧
    ∀ answer, reply.Answers answer → Images c call answer := by
  have houtcome := peerServeCall_outcome c (peerSessionRun c session before) call
  rw [hreply] at houtcome
  have hafter (between : List PeerCall) : peerSessionRun c session (before ++ call :: between) =
      peerSessionRun c reply.session between := by
    rw [List.append_cons, peerSessionRun_append, peerSessionRun_snoc, hreply]
  refine ⟨?_, fun status => houtcome.error, ?_, ?_, fun answer => houtcome.images⟩
  · intro hok
    obtain ⟨hanswer, hgreets | hestablished⟩ := houtcome.ok hok
    · exact ⟨hanswer, .inl hgreets⟩
    · exact ⟨hanswer, .inr (peerSessionRun_established hfresh.handshake before hestablished)⟩
  · intro hstatus between later
    have hclosed := houtcome.closed_of_status hstatus
    rw [hafter, peerServeCall, if_pos (peerSessionRun_closed hclosed between)]
  · intro answer hanswers htype between later answer' hanswers' htype'
    have hsent := (houtcome.discovery.2 answer hanswers htype).2
    rw [hafter] at hanswers'
    have hunsent := ((peerServeCall_outcome c _ later).discovery.2 answer' hanswers' htype').1
    simp [peerSessionRun_discovery hsent between] at hunsent

/-- The frame of a reply, as `peerServe` gives it. -/
theorem peerServe_eq_call (c : ChainContext) (session : PeerSession) (call : PeerCall) :
    peerServe c call.blocks session call.request call.response.length =
      ((peerServeCall c session call).session, (peerServeCall c session call).status.map fun _ =>
        (peerServeCall c session call).response.take (peerServeCall c session call).written) := by
  simp only [peerServe, peerServeCall]
  by_cases hclosed : session.handshake = .closed
  · simp [hclosed, PeerCall.refused, Except.map]
  simp only [if_neg hclosed]
  cases peerDecode call.request with
  | error status => rfl
  | ok m =>
  cases peerValidate c call.blocks with
  | error status => rfl
  | ok s =>
  by_cases hsmall : call.response.length < peerHeaderSize + 68
  · simp only [if_pos hsmall]
    rfl
  simp only [if_neg hsmall]
  generalize (if session.handshake = .awaited then peerGreet c session m
    else peerAnswer call.blocks s session m call.response.length) = result
  obtain ⟨next, status | answer⟩ := result
  · rfl
  simp only [PeerCall.encode]
  cases hencode : peerEncode answer.type answer.payload call.response.length with
  | error status => rfl
  | ok frame =>
      obtain ⟨hsize, hdiscovery, hroom, rfl⟩ := peerEncode_eq_ok hencode
      have hanswered : (call.encode next answer).response =
          (call.answered next answer).response := by
        rw [PeerCall.encode_eq ⟨hsize, hdiscovery, hroom⟩]
      simp only [PeerCall.encode, hencode, PeerCall.answered] at hanswered
      simp only [hanswered, Except.map, Buffer.take_overwrite_zero]

end

section Sample

attribute [local instance] Sample.storing

namespace Sample

/-- A session nothing was received on. -/
def unopened : PeerSession where
  known := none
  self := none
  discoverySent := false
  handshake := .awaited
  requests := 0

/-- A frame sent to a node that serves the genesis block. -/
def callOf (type : PeerType) (payload : Bytes) : PeerCall where
  blocks := [genesis]
  request := peerHeaderBytes type payload.length ++ payload
  response := List.replicate 512 0

/-- The greeting of the sample chain. -/
def greeting : PeerCall :=
  callOf .hello ((peerHello storingContext).toOption.getD [])

/-- A request of the genesis block. -/
def fetching : PeerCall :=
  callOf .getBlock (wireWrite 4 0)

/-- The reply to that request after the greeting. -/
def fetched : PeerReply :=
  peerServeCall storingContext (peerSessionRun storingContext unopened [greeting]) fetching

end Sample

open Sample

/-- The genesis block is answered after the greeting. -/
theorem sample_session_gated :
    unopened.Fresh ∧ Greeted storingContext unopened [greeting] ∧
      Images storingContext fetching ⟨.block, wireWrite 4 0 ++ genesis⟩ := by
  have hfresh : unopened.Fresh := ⟨rfl, rfl⟩
  have hok : (fetched.status.toBool && decide ((peerDecode (fetched.response.take
      fetched.written)).toOption = some ⟨.block, wireWrite 4 0 ++ genesis⟩)) = true := by
    decide +kernel
  have hplain :
      ((peerDecode fetching.request).toOption.any fun m => m.type == .getBlock) = true := by
    decide +kernel
  have hfetched : peerServeCall storingContext
      (peerSessionRun storingContext unopened [greeting]) fetching = fetched := rfl
  obtain ⟨hgate, -, -, -, himages⟩ := peer_session_gated hfresh hfetched
  obtain ⟨hstatus, hframe⟩ := Bool.and_eq_true_iff.mp hok
  obtain ⟨⟨⟩, hstatus⟩ := exists_ok_of_toBool hstatus
  obtain ⟨-, ⟨_, -, hgreets⟩ | hgreeted⟩ := hgate hstatus
  · simp [hgreets, Except.toOption] at hplain
  refine ⟨hfresh, hgreeted, himages _ ⟨hstatus, ?_⟩⟩
  have hframe := of_decide_eq_true hframe
  cases hdecode : peerDecode (fetched.response.take fetched.written) with
  | error status => simp [hdecode, Except.toOption] at hframe
  | ok m => exact congrArg Except.ok (by simpa [hdecode, Except.toOption] using hframe)

end Sample

end StnChain
