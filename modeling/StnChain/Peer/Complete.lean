import StnChain.Chain.RewardRoom
import StnChain.Peer.Session
import StnChain.Peer.Sync
import StnChain.Pending.Inclusions
import StnChain.Support.EarlyExit

/-!
# When synchronization takes over a history

A node that synchronizes with the server of a history with more work should end with
that history active.  `syncSession_iff` says when it does: the bound on the number of
blocks, the scan for pool entries and the reuse of stored blocks must all let the
history pass.
-/

namespace StnChain

open EarlyExit

section

variable [Primitives]

/-! ## A faithful transport -/

/-- A transport that hands every request to `peerServe` and keeps the octets of the
answers until they are received. -/
def servedTransport (c : ChainContext) (blocks : List Bytes) (capacity : ℕ) :
    PeerTransport (PeerSession × Bytes) where
  send request x :=
    match peerServe c blocks x.1 request capacity with
    | (session, .error _) => .ok (session, x.2)
    | (session, .ok frame) => .ok (session, x.2 ++ frame)
  receive n x :=
    if x.2.length < n then .error .disconnected else .ok (x.2.take n, x.1, x.2.drop n)
  exact := by
    intro n x bytes x' h
    split at h
    · simp at h
    next hlength =>
    obtain ⟨rfl, -⟩ := Prod.mk.inj (Except.ok.inj h)
    rw [List.length_take, min_eq_left (Nat.le_of_not_lt hlength)]

/-- A served history: accepted under proof of work, with a length that a summary can
carry, between buffers that hold every frame of the protocol. -/
structure Served (c : ChainContext) (blocks : List Bytes) (s : ChainState)
    (capacity frameCapacity : ℕ) : Prop where
  policy : c.powPolicy.isSome
  accepts : Accepts c blocks s
  count : blocks.length < 2 ^ 32
  server : peerMaxFrame ≤ capacity
  client : peerMaxFrame ≤ frameCapacity

section Exchange

variable {c : ChainContext} {blocks : List Bytes} {s : ChainState} {capacity frameCapacity : ℕ}
  (hserved : Served c blocks s capacity frameCapacity)

include hserved

theorem Served.validate : peerValidate c blocks = .ok s := by
  have haccepts := hserved.accepts
  have hne := (accepts_iff.mp haccepts).1
  have hpolicy : ¬(c.powPolicy.isNone = true ∨ blocks = [] ∨ blocks.length > 2 ^ 32 - 1) := by
    have hsome := Option.isSome_iff_ne_none.mp hserved.policy
    have hcount := hserved.count
    simp only [Option.isNone_iff_eq_none, hsome, hne, false_or]
    omega
  rw [Accepts] at haccepts
  simp only [peerValidate, if_neg hpolicy, haccepts]

omit hserved [Primitives] in
theorem peerEncode_of_le (type : PeerType) (payload : Bytes) {room : ℕ}
    (hsize : payload.length ≤ peerMaxPayload)
    (hdiscovery : discoverySize type payload.length = true) (hroom : peerMaxFrame ≤ room) :
    ∃ frame, peerEncode type payload room = .ok frame := by
  have hfits : ¬(payload.length > peerMaxPayload ∨
      (!discoverySize type payload.length) = true) := by
    simp only [hdiscovery, Bool.not_true, Bool.false_eq_true, or_false]
    omega
  have hcapacity : ¬(room < peerHeaderSize ∨ payload.length > room - peerHeaderSize) := by
    simp only [peerMaxFrame] at hroom
    omega
  refine ⟨peerHeaderBytes type payload.length ++ payload, ?_⟩
  simp only [peerEncode, if_neg hfits, if_neg hcapacity]

omit hserved in
/-- One request and its answer over the faithful transport. -/
theorem peerExchange_served {type expected : PeerType} {payload answer request frame : Bytes}
    {session session' : PeerSession}
    (hrequest : peerEncode type payload frameCapacity = .ok request)
    (hserve : peerServe c blocks session request capacity = (session', .ok frame))
    (hframe : peerEncode expected answer capacity = .ok frame)
    (hclient : peerMaxFrame ≤ frameCapacity) :
    peerExchange (servedTransport c blocks capacity) frameCapacity type payload expected
      (session, []) = .ok (answer, session', []) := by
  obtain ⟨hsize, hdiscovery, -, hbytes⟩ := peerEncode_eq_ok hframe
  have hdecode := peerDecode_of_encode hframe
  have hheader := peerHeader_bytes hsize hdiscovery
  have hstart : ¬frameCapacity < peerHeaderSize := by
    simp only [peerMaxFrame] at hclient
    omega
  have hroom : ¬answer.length > frameCapacity - peerHeaderSize := by
    simp only [peerMaxFrame] at hclient
    omega
  have htake : frame.take peerHeaderSize = peerHeaderBytes expected answer.length := by
    rw [hbytes, List.take_left' (length_peerHeaderBytes _ _)]
  have hdrop : frame.drop peerHeaderSize = answer := by
    rw [hbytes, List.drop_left' (length_peerHeaderBytes _ _)]
  have hlength : frame.length = peerHeaderSize + answer.length := by
    rw [hbytes, List.length_append, length_peerHeaderBytes]
  have hreceive : peerReceive (servedTransport c blocks capacity) frameCapacity
      (session', frame) = .ok (frame, session', []) := by
    simp only [peerReceive, if_neg hstart, servedTransport, hlength, hdrop, htake, hheader,
      if_neg hroom, Nat.not_lt.mpr (Nat.le_add_right _ _), ↓reduceIte]
    by_cases hnil : answer.length = 0
    · simp [hbytes, List.length_eq_zero_iff.mp hnil]
    · simp [hnil, hbytes]
  have hsend : (servedTransport c blocks capacity).send request (session, []) =
      .ok (session', frame) := by
    simp [servedTransport, hserve]
  simp only [peerExchange, hrequest, hsend, hreceive, hdecode, ↓reduceIte]

/-- A request that an open session answers is answered over the transport. -/
theorem Served.exchange {type : PeerType} {payload : Bytes} {session session' : PeerSession}
    {answer : PeerMessage} (hopen : session.handshake ≠ .closed)
    (hrequest : ∃ request, peerEncode type payload frameCapacity = .ok request)
    (hanswer : (if session.handshake = .awaited then peerGreet c session ⟨type, payload⟩
      else peerAnswer blocks s session ⟨type, payload⟩ capacity) = (session', .ok answer))
    (hreply : ∃ frame, peerEncode answer.type answer.payload capacity = .ok frame) :
    peerExchange (servedTransport c blocks capacity) frameCapacity type payload answer.type
      (session, []) = .ok (answer.payload, session'.answered, []) := by
  obtain ⟨request, hrequest⟩ := hrequest
  obtain ⟨frame, hreply⟩ := hreply
  have hserver : ¬capacity < peerHeaderSize + 68 := by
    have hcapacity := hserved.server
    have hlow : peerHeaderSize + 68 ≤ peerMaxFrame := by decide
    omega
  apply peerExchange_served hrequest _ hreply hserved.client
  simp only [peerServe, if_neg hopen, peerDecode_of_encode hrequest, hserved.validate,
    if_neg hserver, hanswer, hreply]

/-- A request of an established session is answered over the transport. -/
theorem Served.answer {type : PeerType} {payload : Bytes} {session session' : PeerSession}
    {answer : PeerMessage} (hestablished : session.handshake = .established)
    (hrequest : ∃ request, peerEncode type payload frameCapacity = .ok request)
    (hanswer : peerAnswer blocks s session ⟨type, payload⟩ capacity = (session', .ok answer))
    (hreply : ∃ frame, peerEncode answer.type answer.payload capacity = .ok frame) :
    peerExchange (servedTransport c blocks capacity) frameCapacity type payload answer.type
      (session, []) = .ok (answer.payload, session'.answered, []) := by
  apply hserved.exchange _ hrequest _ hreply
  · simp [hestablished]
  · simpa [hestablished] using hanswer

/-! ## Requests of a synchronization -/

/-- A session between two requests of a synchronization: nothing is undelivered. -/
def Idle (x : PeerSession × Bytes) : Prop :=
  x.1.handshake = .established ∧ x.2 = []

omit hserved [Primitives] in
theorem Idle.answered (session : PeerSession) : Idle (session.answered, []) :=
  ⟨rfl, rfl⟩

omit hserved [Primitives] in
/-- The headers of a page are those of its blocks. -/
theorem pageHeaders_bytes {blocks : List Bytes} (h : ∀ bytes ∈ blocks, Storable bytes)
    (page num : ℕ) :
    pageHeaders (wireWrite 4 page ++ wireWrite 4 num ++ headersBytes blocks) blocks.length =
      blocks.map (·.take blockHeaderSize) := by
  have hheader : ∀ i (hi : i < blocks.length),
      ((headersBytes blocks).drop (i * blockHeaderSize)).take blockHeaderSize =
        blocks[i].take blockHeaderSize := by
    clear page num
    induction blocks with
    | nil => simp
    | cons bytes rest ih =>
        have hmin := (h bytes List.mem_cons_self).1
        have hlength : (bytes.take blockHeaderSize).length = blockHeaderSize := by
          rw [List.length_take, min_eq_left hmin]
        intro i hi
        simp only [headersBytes, List.flatMap_cons]
        cases i with
        | zero => simp [hlength]
        | succ i =>
            rw [Nat.succ_mul, Nat.add_comm, ← List.drop_drop, List.drop_left' hlength]
            exact ih (fun other hother => h other (List.mem_cons_of_mem bytes hother)) i
              (Nat.lt_of_succ_lt_succ hi)
  apply List.ext_getElem (by simp [pageHeaders])
  intro i hi hi'
  have hlength : (wireWrite 4 page ++ wireWrite 4 num).length = 8 := by simp
  simp only [pageHeaders, List.getElem_map, List.getElem_range]
  rw [← List.drop_drop, List.drop_left' hlength]
  exact hheader i (by simpa using hi')

/-- A peer on the same chain is greeted; its session is established then. -/
theorem Served.syncGreet {w : PeerWorkspace c.hashProvider}
    (hw : w.frameCapacity = frameCapacity) {session : PeerSession}
    (hsession : session.handshake = .awaited) :
    ∃ capabilities, syncGreet c (servedTransport c blocks capacity) w (session, []) =
      .ok (capabilities, session.answered, []) := by
  obtain ⟨id, hid⟩ : ∃ id, chainBlockId c.genesisBytes c.hashProvider = .ok id := by
    have haccepts := hserved.accepts
    obtain ⟨hne, hreach⟩ := accepts_iff.mp haccepts
    obtain ⟨bytes, rest, rfl⟩ := List.exists_cons_of_ne_nil hne
    rw [← haccepts.head]
    exact hreach.blockId_of_mem List.mem_cons_self
  obtain ⟨greeting, hgreeting⟩ : ∃ greeting, greeting =
      octetBytes c.networkId ++ octetBytes id ++ wireWrite 4 1 := ⟨_, rfl⟩
  have hhello : peerHello c = .ok greeting := by
    simp [peerHello, hid, hgreeting]
  have hlength : greeting.length = 68 := by simp [hgreeting]
  obtain ⟨capability, hcapability, hanswer⟩ : ∃ capability, (capability = 1 ∨ capability = 3) ∧
      peerGreet c session ⟨.hello, greeting⟩ =
        (session, .ok ⟨.hello, greeting.take 64 ++ wireWrite 4 capability⟩) := by
    refine ⟨if session.known.isSome then 3 else 1, ?_, by simp [peerGreet, hlength, hhello]⟩
    split
    · exact .inr rfl
    · exact .inl rfl
  have hreplied : (greeting.take 64 ++ wireWrite 4 capability).length = 68 := by
    simp [hlength]
  have hread : wireRead (greeting.take 64 ++ wireWrite 4 capability) 64 4 = capability := by
    rw [wireRead_append_right (by simp), List.length_take, hlength]
    exact wireRead_wireWrite (by rcases hcapability with rfl | rfl <;> decide)
  have htake : (greeting.take 64 ++ wireWrite 4 capability).take 64 = greeting.take 64 :=
    List.take_left' (by simp [hlength])
  have hrequest := peerEncode_of_le .hello greeting
    (by rw [hlength]; decide) rfl hserved.client
  have hreply := peerEncode_of_le .hello
    (greeting.take 64 ++ wireWrite 4 capability) (by rw [hreplied]; decide) rfl
    hserved.server
  have hopen : session.handshake ≠ .closed := by simp [hsession]
  have hgreeted : (if session.handshake = .awaited then
      peerGreet c session ⟨.hello, greeting⟩
    else peerAnswer blocks s session ⟨.hello, greeting⟩ capacity) =
      (session, .ok ⟨.hello, greeting.take 64 ++ wireWrite 4 capability⟩) := by
    rw [if_pos hsession, hanswer]
  have hexchange := hserved.exchange hopen hrequest hgreeted hreply
  have hknown : ¬(capability ≠ 1 ∧ capability ≠ 3) := by
    omega
  subst hw
  refine ⟨capability, ?_⟩
  simp only [StnChain.syncGreet, hhello, hexchange, hreplied, htake, hread, ne_eq,
    not_true_eq_false, false_or, if_neg hknown]

/-- The summary of a served history: its number of blocks, if the candidate buffer allows
for that many. -/
theorem Served.syncCount {w : PeerWorkspace c.hashProvider}
    (hw : w.frameCapacity = frameCapacity) {x : PeerSession × Bytes} (hx : Idle x) :
    syncCount (servedTransport c blocks capacity) w x =
      if blocks.length > w.candidateCapacity / (blockHeaderSize + blockMinBody) then
        .error .capacity
      else .ok (blocks.length, x.1.answered, []) := by
  obtain ⟨session, undelivered⟩ := x
  obtain ⟨hestablished, hnil⟩ := hx
  obtain rfl : undelivered = [] := hnil
  have hlow : 96 ≤ peerMaxFrame := by decide
  have hserver := hserved.server
  have hroom : ¬capacity < 96 := by omega
  have hlength : (peerSummary s blocks.length).length = 84 := by simp [peerSummary]
  have hanswer : peerAnswer blocks s session ⟨.state, []⟩ capacity =
      (session, .ok ⟨.state, peerSummary s blocks.length⟩) := by
    simp [peerAnswer, hroom]
  have hrequest := peerEncode_of_le .state [] (by decide) rfl hserved.client
  have hreply := peerEncode_of_le .state (peerSummary s blocks.length)
    (by rw [hlength]; decide) rfl hserved.server
  have hexchange := hserved.answer hestablished hrequest hanswer hreply
  obtain ⟨hne, hreach⟩ := accepts_iff.mp hserved.accepts
  have hheight := hreach.tipOf.height hne
  have hcount : wireRead (peerSummary s blocks.length) 80 4 = blocks.length := by
    have hlimit : blocks.length < 256 ^ 4 := by simpa using hserved.count
    simp only [peerSummary]
    rw [wireRead_append_right (by simp)]
    simpa using wireRead_wireWrite hlimit
  have htip : wireRead (peerSummary s blocks.length) 0 8 = s.height.toNat := by
    simp only [peerSummary, List.append_assoc]
    rw [wireRead_append_left (by simp)]
    exact wireRead_wireWrite (by simpa using s.height.toNat_lt)
  have hsummary : ¬(blocks.length = 0 ∨ s.height.toNat ≠ blocks.length - 1) := by
    rw [not_or, not_not]
    exact ⟨by omega, by omega⟩
  subst hw
  simp only [StnChain.syncCount, hexchange, hlength, ne_eq, not_true_eq_false, ↓reduceIte, hcount,
    htip, if_neg hsummary]

/-- A block of a served history is fetched. -/
theorem Served.syncFetch {w : PeerWorkspace c.hashProvider}
    (hw : w.frameCapacity = frameCapacity) {y : SyncState (PeerSession × Bytes)}
    (hy : Idle y.transport) {bytes : Bytes} (hbytes : blocks[y.blocks.length]? = some bytes) :
    syncFetch (servedTransport c blocks capacity) w y =
      .ok (bytes, { y with
        transport := (y.transport.1.answered, [])
        matching := false
        received := y.received + 1 }) := by
  obtain ⟨⟨session, undelivered⟩, recovery, done, checked, matching, reused, received⟩ := y
  obtain ⟨hestablished, hnil⟩ := hy
  obtain rfl : undelivered = [] := hnil
  dsimp only at hestablished hbytes ⊢
  have hlt : done.length < blocks.length := (List.getElem?_eq_some_iff.mp hbytes).1
  have hlimit : done.length < 256 ^ 4 := by
    have hcount := hserved.count
    omega
  have hread : wireRead (wireWrite 4 done.length) 0 4 = done.length := wireRead_wireWrite hlimit
  have hmax : bytes.length ≤ blockMaxSize := by
    obtain ⟨-, hreach⟩ := accepts_iff.mp hserved.accepts
    exact (hreach.storable bytes (List.mem_of_getElem? hbytes)).2
  have hlength : (wireWrite 4 done.length ++ bytes).length = 4 + bytes.length := by simp
  have hroom : ¬capacity < peerHeaderSize + (4 + bytes.length) := by
    have hserver := hserved.server
    simp only [peerMaxFrame, peerMaxPayload] at hserver
    omega
  have hanswer : peerAnswer blocks s session ⟨.getBlock, wireWrite 4 done.length⟩ capacity =
      (session, .ok ⟨.block, wireWrite 4 done.length ++ bytes⟩) := by
    simp [peerAnswer, hread, hbytes, hroom]
  have hrequest := peerEncode_of_le .getBlock (wireWrite 4 done.length)
    (by rw [length_wireWrite]; decide) rfl hserved.client
  have hreply := peerEncode_of_le .block (wireWrite 4 done.length ++ bytes)
    (by rw [hlength, peerMaxPayload]; omega) rfl hserved.server
  have hexchange := hserved.answer hestablished hrequest hanswer hreply
  have hindex : wireRead (wireWrite 4 done.length ++ bytes) 0 4 = done.length := by
    rw [wireRead_append_left (by simp), hread]
  have hdrop : (wireWrite 4 done.length ++ bytes).drop 4 = bytes :=
    List.drop_left' (length_wireWrite 4 _)
  subst hw
  simp [StnChain.syncFetch, hexchange, hindex, hdrop]

/-- A page of a served history gives the headers of its blocks. -/
theorem Served.page {start num : ℕ} (hpositive : 0 < num) (hpage : num ≤ 64)
    (hbound : start + num ≤ blocks.length) {x : PeerSession × Bytes} (hx : Idle x) :
    peerExchange (servedTransport c blocks capacity) frameCapacity .getHeaders
      (wireWrite 4 start ++ wireWrite 4 num) .headers x =
      .ok (wireWrite 4 start ++ wireWrite 4 num ++ headersBytes ((blocks.drop start).take num),
        x.1.answered, []) := by
  obtain ⟨session, undelivered⟩ := x
  obtain ⟨hestablished, hnil⟩ := hx
  obtain rfl : undelivered = [] := hnil
  have hcount := hserved.count
  have hstart : wireRead (wireWrite 4 start ++ wireWrite 4 num) 0 4 = start := by
    rw [wireRead_append_left (by simp)]
    exact wireRead_wireWrite (by omega)
  have hnum : wireRead (wireWrite 4 start ++ wireWrite 4 num) 4 4 = num := by
    rw [wireRead_append_right (by simp)]
    simpa using wireRead_wireWrite (n := 4) (v := num) (by omega)
  have hvalid : ¬(start ≥ blocks.length ∨ num = 0 ∨ num > 64 ∨ num > blocks.length - start) := by
    omega
  obtain ⟨-, hreach⟩ := accepts_iff.mp hserved.accepts
  have hstorable : ∀ bytes ∈ (blocks.drop start).take num, Storable bytes := fun bytes h =>
    hreach.storable bytes (List.mem_of_mem_drop (List.mem_of_mem_take h))
  have hlength : (wireWrite 4 start ++ wireWrite 4 num ++
      headersBytes ((blocks.drop start).take num)).length = 8 + num * blockHeaderSize := by
    rw [List.length_append, length_headersBytes hstorable, List.length_take, List.length_drop,
      min_eq_left (by omega)]
    simp
  have hlow : peerHeaderSize + (8 + 64 * blockHeaderSize) ≤ peerMaxFrame := by decide
  have hserver := hserved.server
  have hheaders : num * blockHeaderSize ≤ 64 * blockHeaderSize := Nat.mul_le_mul_right _ hpage
  have hroom : ¬capacity < peerHeaderSize + (8 + num * blockHeaderSize) := by omega
  have hanswer : peerAnswer blocks s session
      ⟨.getHeaders, wireWrite 4 start ++ wireWrite 4 num⟩ capacity =
      (session, .ok ⟨.headers, wireWrite 4 start ++ wireWrite 4 num ++
        headersBytes ((blocks.drop start).take num)⟩) := by
    simp only [peerAnswer, List.length_append, length_wireWrite, ne_eq, Nat.reduceAdd,
      not_true_eq_false, ↓reduceIte, hstart, hnum, if_neg hvalid, if_neg hroom]
  have hrequest := peerEncode_of_le .getHeaders
    (wireWrite 4 start ++ wireWrite 4 num) (by simp; decide) rfl hserved.client
  have hreply := peerEncode_of_le .headers
    (wireWrite 4 start ++ wireWrite 4 num ++
      headersBytes ((blocks.drop start).take num))
    (by simp only [hlength, peerMaxFrame] at *; omega) rfl hserved.server
  exact hserved.answer hestablished hrequest hanswer hreply

end Exchange

/-! ## The block loop -/

/-- After equal blocks, a stored block with the header of the served block at its index
is that block. -/
def SharesAt (stored blocks : List Bytes) (n : ℕ) : Prop :=
  ∀ left right, stored.take n = blocks.take n → stored[n]? = some left →
    blocks[n]? = some right → left.take blockHeaderSize = right.take blockHeaderSize → left = right

/-- Reused blocks are the served ones. -/
def SharesBlocks (stored blocks : List Bytes) : Prop :=
  ∀ n, SharesAt stored blocks n

/-- The headers of a stored and a served history differ at some index below `n`. -/
def PartedBelow (stored blocks : List Bytes) (n : ℕ) : Prop :=
  ∃ i < n, ∀ left right, stored[i]? = some left → blocks[i]? = some right →
    left.take blockHeaderSize ≠ right.take blockHeaderSize

/-- The invariant of the block loop before index `n`. -/
structure SyncInv (c : ChainContext) (stored blocks : List Bytes) (n : ℕ)
    (y : SyncState (PeerSession × Bytes)) : Prop where
  idle : Idle y.transport
  length : y.blocks.length = n
  checked : y.blocks ≠ [] → Accepts c y.blocks y.checked
  reuse : y.matching = true → y.blocks = stored.take n
  parted : y.matching = false → PartedBelow stored blocks n
  agrees : SharesBlocks stored blocks → y.blocks = blocks.take n
  shared : y.blocks = blocks.take n → ∀ i < n, SharesAt stored blocks i

section Loop

variable {c : ChainContext} {stored blocks : List Bytes} {s : ChainState} {capacity : ℕ}
  {w : PeerWorkspace c.hashProvider} (hserved : Served c blocks s capacity w.frameCapacity)

include hserved

/-- A round takes the stored block while headers match, and the served block else. -/
theorem SyncInv.take {n : ℕ} {y : SyncState (PeerSession × Bytes)}
    (h : SyncInv c stored blocks n y) {bytes : Bytes} (hbytes : blocks[n]? = some bytes) :
    ∃ taken y', syncTake (servedTransport c blocks capacity) w stored y
        (bytes.take blockHeaderSize) = .ok (taken, y') ∧
      y'.blocks = y.blocks ∧ Idle y'.transport ∧
      taken.take blockHeaderSize = bytes.take blockHeaderSize ∧
      (y'.matching = true → y.matching = true ∧ stored[n]? = some taken) ∧
      (y'.matching = false → taken = bytes ∧ PartedBelow stored blocks (n + 1)) := by
  have hfetch := hserved.syncFetch rfl h.idle (by rwa [h.length])
  have hfetched (hparted : PartedBelow stored blocks (n + 1)) :
      ∃ taken y', syncFetch (servedTransport c blocks capacity) w y = .ok (taken, y') ∧
        y'.blocks = y.blocks ∧ Idle y'.transport ∧
        taken.take blockHeaderSize = bytes.take blockHeaderSize ∧
        (y'.matching = true → y.matching = true ∧ stored[n]? = some taken) ∧
        (y'.matching = false → taken = bytes ∧ PartedBelow stored blocks (n + 1)) :=
    ⟨bytes, _, hfetch, rfl, Idle.answered _, rfl, by simp, fun _ => ⟨rfl, hparted⟩⟩
  simp only [syncTake, h.length]
  split
  · next hstored =>
      apply hfetched
      exact ⟨n, Nat.lt_succ_self n, fun left right hleft => by simp [hstored] at hleft⟩
  next left hstored =>
  split
  · next hsame =>
      refine ⟨left, _, rfl, rfl, h.idle, hsame.2, fun _ => ⟨hsame.1, hstored⟩, ?_⟩
      intro hfalse
      simp [hsame.1] at hfalse
  · next hdiffer =>
      apply hfetched
      by_cases hmatching : y.matching = true
      · refine ⟨n, Nat.lt_succ_self n, fun left' right hleft hright heq => ?_⟩
        obtain rfl : left = left' := Option.some.inj (hstored.symm.trans hleft)
        obtain rfl : bytes = right := Option.some.inj (hbytes.symm.trans hright)
        exact hdiffer ⟨hmatching, heq⟩
      · obtain ⟨i, hi, hne⟩ := h.parted (by simpa using hmatching)
        exact ⟨i, Nat.lt_succ_of_lt hi, hne⟩

omit hserved [Primitives] in
/-- A round that leaves the served blocks so far as they are shows that reuse is exact at
its index. -/
theorem sharesAt_of_taken {n : ℕ} {matching : Bool} {bytes taken : Bytes}
    (hbytes : blocks[n]? = some bytes) (htaken : taken = bytes)
    (hreused : matching = true → stored[n]? = some taken)
    (hparted : matching = false → PartedBelow stored blocks (n + 1)) :
    SharesAt stored blocks n := by
  intro left right htake hleft hright heq
  obtain rfl : bytes = right := Option.some.inj (hbytes.symm.trans hright)
  by_cases hmatching : matching = true
  · rw [hreused hmatching] at hleft
    exact (Option.some.inj hleft).symm.trans htaken
  · obtain ⟨i, hi, hne⟩ := hparted (by simpa using hmatching)
    rcases Nat.lt_succ_iff_lt_or_eq.mp hi with hi | rfl
    · have hn : n < blocks.length := (List.getElem?_eq_some_iff.mp hbytes).1
      have hget : blocks[i]? = some blocks[i] := List.getElem?_eq_getElem (by omega)
      have hget' : stored[i]? = some blocks[i] := by
        rw [← List.getElem?_take_of_lt hi, htake, List.getElem?_take_of_lt hi, hget]
      exact absurd rfl (hne _ _ hget' hget)
    · exact absurd heq (hne _ _ hleft hright)

/-- A round keeps the invariant; it fails only where a reused block is not the served one. -/
theorem SyncInv.step (hfits : blocks.flatten.length ≤ w.candidateCapacity) {n : ℕ}
    {y : SyncState (PeerSession × Bytes)} (h : SyncInv c stored blocks n y) {bytes : Bytes}
    (hbytes : blocks[n]? = some bytes) :
    Ends (fun _ => ¬SharesBlocks stored blocks) (SyncInv c stored blocks (n + 1))
      (syncBlock c (servedTransport c blocks capacity) w stored y
        (bytes.take blockHeaderSize)) := by
  obtain ⟨taken, y', htake, hkept, hidle, hheader, hreused, hparted⟩ := h.take hserved hbytes
  obtain ⟨-, hreach⟩ := accepts_iff.mp hserved.accepts
  have hmin := (hreach.storable bytes (List.mem_of_getElem? hbytes)).1
  have hlength : ¬taken.length < blockHeaderSize := by
    have hsame := congrArg List.length hheader
    simp only [List.length_take] at hsame
    omega
  have hnext : blocks.take (n + 1) = blocks.take n ++ [bytes] := by
    rw [List.take_add_one, hbytes, Option.toList_some]
  have hshares : SharesBlocks stored blocks → y.blocks ++ [taken] = blocks.take (n + 1) := by
    intro hshares
    have hblocks := h.agrees hshares
    rw [hnext, hblocks]
    by_cases hmatching : y'.matching = true
    · obtain ⟨hbefore, hstored⟩ := hreused hmatching
      have hfront : stored.take n = blocks.take n := (h.reuse hbefore).symm.trans hblocks
      rw [hshares n taken bytes hfront hstored hbytes hheader]
    · rw [(hparted (by simpa using hmatching)).1]
  have hshort : ¬(taken.length < blockHeaderSize ∨
      taken.take blockHeaderSize ≠ bytes.take blockHeaderSize) := by
    simp [hlength, hheader]
  simp only [syncBlock, htake, if_neg hshort, hkept]
  split
  · next hover =>
      intro hsame
      have hflat := congrArg (fun blocks => blocks.flatten.length) (hshares hsame)
      have hsub : (blocks.take (n + 1)).flatten.length ≤ blocks.flatten.length := by
        conv_rhs => rw [← List.take_append_drop (n + 1) blocks, List.flatten_append]
        rw [List.length_append]
        exact Nat.le_add_right _ _
      simp only [List.flatten_append, List.length_append, List.flatten_cons, List.flatten_nil,
        List.append_nil] at hflat
      omega
  split
  · next hrefused =>
      intro hsame
      have hwhole := hserved.accepts
      rw [← List.take_append_drop (n + 1) blocks] at hwhole
      obtain ⟨t, ht⟩ := hwhole.front (by simp [hnext])
      rw [hshares hsame, ht] at hrefused
      simp at hrefused
  · next r t hvalid =>
      refine ⟨hidle, by simp [h.length], fun _ => accepts_of_state hvalid, ?_, ?_, hshares, ?_⟩
      · intro hmatching
        obtain ⟨hbefore, hstored⟩ := hreused hmatching
        rw [List.take_add_one, hstored, Option.toList_some, ← h.reuse hbefore]
      · intro hmatching
        exact (hparted hmatching).2
      · intro hsame
        dsimp only at hsame
        rw [hnext] at hsame
        obtain ⟨hblocks, hlast⟩ := List.append_inj' hsame rfl
        have htaken : taken = bytes := by simpa using hlast
        intro i hi
        rcases Nat.lt_succ_iff_lt_or_eq.mp hi with hi | rfl
        · exact h.shared hblocks i hi
        · exact sharesAt_of_taken hbytes htaken (fun hmatching => (hreused hmatching).2)
            fun hmatching => (hparted hmatching).2

/-- A page keeps the invariant. -/
theorem SyncInv.page (hfits : blocks.flatten.length ≤ w.candidateCapacity) {n num : ℕ}
    {y : SyncState (PeerSession × Bytes)} (h : SyncInv c stored blocks n y) (hpositive : 0 < num)
    (hpage : num ≤ 64) (hbound : n + num ≤ blocks.length) :
    Ends (fun _ => ¬SharesBlocks stored blocks) (SyncInv c stored blocks (n + num))
      (syncPage c (servedTransport c blocks capacity) w stored y num) := by
  have hexchange := hserved.page hpositive hpage hbound h.idle
  obtain ⟨-, hreach⟩ := accepts_iff.mp hserved.accepts
  have hstorable : ∀ bytes ∈ (blocks.drop n).take num, Storable bytes := fun bytes h =>
    hreach.storable bytes (List.mem_of_mem_drop (List.mem_of_mem_take h))
  have hnum : ((blocks.drop n).take num).length = num := by
    rw [List.length_take, List.length_drop, min_eq_left (by omega)]
  have hcount := hserved.count
  have hsize : (wireWrite 4 n ++ wireWrite 4 num ++
      headersBytes ((blocks.drop n).take num)).length = 8 + num * blockHeaderSize := by
    rw [List.length_append, length_headersBytes hstorable, hnum]
    simp
  have hstart : wireRead (wireWrite 4 n ++ wireWrite 4 num ++
      headersBytes ((blocks.drop n).take num)) 0 4 = n := by
    rw [List.append_assoc, wireRead_append_left (by simp)]
    exact wireRead_wireWrite (by omega)
  have hread : wireRead (wireWrite 4 n ++ wireWrite 4 num ++
      headersBytes ((blocks.drop n).take num)) 4 4 = num := by
    rw [List.append_assoc, wireRead_append_right (by simp), wireRead_append_left (by simp)]
    simpa using wireRead_wireWrite (n := 4) (v := num) (by omega)
  have hheaders := pageHeaders_bytes hstorable n num
  rw [hnum] at hheaders
  simp only [syncPage, h.length, hexchange, hsize, hstart, hread, ne_eq, not_true_eq_false,
    or_self, ↓reduceIte, hheaders]
  have hend : n + num = n + (((blocks.drop n).take num).map (·.take blockHeaderSize)).length := by
    rw [List.length_map, hnum]
  rw [hend]
  refine Ends.foldlM (I := fun past => SyncInv c stored blocks (n + past.length))
    ⟨Idle.answered _, h.length, h.checked, h.reuse, h.parted, h.agrees, h.shared⟩ ?_
  intro past header rest z hsplit hz
  obtain ⟨before, after, hblocks, rfl, hafter⟩ := List.map_eq_append_iff.mp hsplit
  obtain ⟨bytes, rest', rfl, rfl, -⟩ := List.map_eq_cons_iff.mp hafter
  have hbytes : blocks[n + before.length]? = some bytes := by
    have hlt : before.length < num := by
      have hlength := congrArg List.length hblocks
      simp only [hnum, List.length_append, List.length_cons] at hlength
      omega
    rw [← List.getElem?_drop, ← List.getElem?_take_of_lt hlt, hblocks]
    simp
  rw [List.length_map] at hz
  have hstep := hz.step hserved hfits hbytes
  simpa [Nat.add_assoc] using hstep

omit hserved [Primitives] in
theorem pageSizes_sum (count : ℕ) : (pageSizes count).sum = count := by
  have hsplit := Nat.div_add_mod count 64
  simp only [pageSizes]
  split
  · simp
    omega
  · simp
    omega

omit hserved [Primitives] in
theorem pageSizes_bounds {count num : ℕ} (h : num ∈ pageSizes count) : 0 < num ∧ num ≤ 64 := by
  have hrest := Nat.mod_lt count (by decide : 0 < 64)
  simp only [pageSizes, List.mem_append, List.mem_replicate] at h
  split at h
  · simp at h
    omega
  · simp at h
    omega

/-- The page loop ends with the invariant for the whole history. -/
theorem SyncInv.pages (hfits : blocks.flatten.length ≤ w.candidateCapacity)
    {y : SyncState (PeerSession × Bytes)} (h : SyncInv c stored blocks 0 y) :
    Ends (fun _ => ¬SharesBlocks stored blocks) (SyncInv c stored blocks blocks.length)
      ((pageSizes blocks.length).foldlM
        (syncPage c (servedTransport c blocks capacity) w stored) y) := by
  have hend : SyncInv c stored blocks blocks.length =
      SyncInv c stored blocks (pageSizes blocks.length).sum := by
    rw [pageSizes_sum]
  rw [hend]
  refine Ends.foldlM (I := fun past => SyncInv c stored blocks past.sum) h ?_
  intro past num rest z hsplit hz
  have hsum := pageSizes_sum blocks.length
  rw [hsplit, List.sum_append, List.sum_cons] at hsum
  obtain ⟨hpositive, hpage⟩ :=
    pageSizes_bounds (by simp [hsplit] : num ∈ pageSizes blocks.length)
  have hstep := hz.page hserved hfits hpositive hpage (by omega)
  rwa [List.sum_append, List.sum_singleton]

/-- The block loop, from the summary on. -/
theorem Served.syncBlocks (hfits : blocks.flatten.length ≤ w.candidateCapacity) (recovery : Bool)
    {x : PeerSession × Bytes} (hx : Idle x) :
    Ends (fun _ => ¬(blocks.length ≤ w.candidateCapacity / (blockHeaderSize + blockMinBody) ∧
        SharesBlocks stored blocks))
      (fun y => blocks.length ≤ w.candidateCapacity / (blockHeaderSize + blockMinBody) ∧
        SyncInv c stored blocks blocks.length y)
      (syncBlocks c (servedTransport c blocks capacity) w stored recovery x) := by
  obtain ⟨-, initial, hinit, -⟩ := accepts_iff.mp hserved.accepts
  simp only [StnChain.syncBlocks, hserved.syncCount rfl hx]
  split
  · next status hcount =>
      split at hcount
      · next hmany => exact fun h => absurd h.1 (Nat.not_le.mpr hmany)
      · simp at hcount
  · next count session hcount =>
      split at hcount
      · simp at hcount
      next hbound =>
      obtain ⟨rfl, rfl⟩ := Prod.mk.inj (Except.ok.inj hcount)
      have hstart : SyncInv c stored blocks 0
          { transport := (x.1.answered, []), recovery, blocks := [], checked := initial,
            matching := true, reused := 0, received := 0 } :=
        ⟨Idle.answered _, rfl, by simp, by simp, by simp, by simp, by simp⟩
      simp only [hinit]
      have hpages := hstart.pages hserved hfits
      rcases hrun : (pageSizes blocks.length).foldlM
        (syncPage c (servedTransport c blocks capacity) w stored) _ with report | y
      · rw [hrun] at hpages
        exact fun h => hpages h.2
      · rw [hrun] at hpages
        exact ⟨by omega, hpages⟩

end Loop

/-! ## Sessions -/

/-- A synchronization has taken over a history: it ended well, published an image of the
history and left its state active. -/
def Synchronized {σ : Type} (c : ChainContext) (outcome : SyncOutcome σ c.hashProvider)
    (blocks : List Bytes) (s : ChainState) : Prop :=
  outcome.report.status = none ∧
    ∃ image, outcome.published = some (image, s) ∧ storageDecode c image = .ok ⟨blocks, s⟩

/-- The condition under which synchronization takes over a history: it has no more blocks
than the candidate buffer allows for, no block-compensation evidence if there is a pool,
and no stored block would be reused in place of another. -/
structure SyncCondition (c : ChainContext) (w : PeerWorkspace c.hashProvider)
    (stored blocks : List Bytes) : Prop where
  count : blocks.length ≤ w.candidateCapacity / (blockHeaderSize + blockMinBody)
  evidence : w.pending.isSome → ∀ tx ∈ historyTransactions blocks,
    tx.type ≠ .blockCompensationEvidence
  shares : SharesBlocks stored blocks

/-- The scan for entries to remove succeeds when there is no pool, or no evidence. -/
theorem Reaches.exists_remove_iff {c : ChainContext} {blocks : List Bytes} {s : ChainState}
    (h : Reaches c blocks s) (pending : Option (Pending c.hashProvider)) :
    (∃ remove, pending.mapM (pendingInclusions · blocks) = .ok remove) ↔
      (pending.isSome → ∀ tx ∈ historyTransactions blocks,
        tx.type ≠ .blockCompensationEvidence) := by
  cases pending with
  | none => simp [pure, Except.pure]
  | some pool =>
      rw [← h.exists_inclusions_iff pool]
      simp only [Option.mapM_some, Option.isSome_some, forall_const]
      cases pendingInclusions pool blocks with
      | error status => simp
      | ok mask => simp

/-- Reuse is exact where the loop ended with the served blocks. -/
theorem SyncInv.sharesBlocks {c : ChainContext} {stored blocks : List Bytes}
    {y : SyncState (PeerSession × Bytes)} (h : SyncInv c stored blocks blocks.length y)
    (hblocks : y.blocks = blocks) : SharesBlocks stored blocks := by
  intro n
  by_cases hn : n < blocks.length
  · exact h.shared (by rw [hblocks, List.take_length]) n hn
  · intro left right _ _ hright
    rw [List.getElem?_eq_none (Nat.le_of_not_lt hn)] at hright
    simp at hright

section Session

variable {c : ChainContext} {blocks : List Bytes} {s t : ChainState} {capacity : ℕ}
  {w : PeerWorkspace c.hashProvider} {p : StorageStore} {stored : StorageView} {recovery : Bool}
  {image : Bytes} (hserved : Served c blocks s capacity w.frameCapacity)
  (hread : storageRecoveryRead c p.toStorageProvider w.storage.currentCapacity =
    .ok (stored, recovery))
  (hstored : Accepts c stored.blocks t) (hwork : t.cumulativeWork < s.cumulativeWork)
  (hencode : storageEncode c blocks w.storage.nextCapacity = .ok image)
  (hreplace : p.replace image = .ok ())

include hserved hread hstored hwork hencode hreplace

/-- A history with more work is adopted. -/
theorem Served.adopt : storageAdopt c p blocks w.storage = .ok (image, s) := by
  simp only [storageRecoveryRead] at hread
  split at hread
  · simp at hread
  next hacquire =>
  rw [storageAdopt_of_work hacquire hread hstored hserved.accepts hserved.policy hwork]
  simp [storagePublish, hencode, hreplace]

/-- The end of a synchronization that has taken some blocks. -/
theorem Served.syncAdopt_iff {y : SyncState (PeerSession × Bytes)} (capabilities : Option ℕ)
    (hy : SyncInv c stored.blocks blocks blocks.length y) :
    Synchronized c (syncAdopt p w capabilities y) blocks s ↔
      (w.pending.isSome → ∀ tx ∈ historyTransactions blocks,
        tx.type ≠ .blockCompensationEvidence) ∧ SharesBlocks stored.blocks blocks := by
  obtain ⟨-, hreach⟩ := accepts_iff.mp hserved.accepts
  have hadopt := hserved.adopt hread hstored hwork hencode hreplace
  have hdecode := storageDecode_of_encode hserved.policy hserved.accepts hencode
  by_cases hshares : SharesBlocks stored.blocks blocks
  · have hblocks : y.blocks = blocks := by
      rw [hy.agrees hshares, List.take_length]
    rw [← hreach.exists_remove_iff w.pending]
    simp only [syncAdopt, hblocks, hadopt, hshares, and_true]
    cases w.pending.mapM (pendingInclusions · blocks) with
    | error status => simp [Synchronized, SyncOutcome.ended]
    | ok remove => simp [Synchronized, hdecode]
  · simp only [hshares, and_false, iff_false]
    rintro ⟨-, image', hpublished, hdecode'⟩
    apply hshares
    apply hy.sharesBlocks
    simp only [syncAdopt] at hpublished
    split at hpublished
    · simp [SyncOutcome.ended] at hpublished
    split at hpublished
    · simp [SyncOutcome.ended] at hpublished
    · simp [SyncOutcome.ended] at hpublished
    next published hadopt' =>
    obtain rfl := Option.some.inj hpublished
    obtain ⟨haccepts, hencode'⟩ := storageAdopt_eq_ok hadopt'
    rw [storageDecode_of_encode hserved.policy haccepts hencode'] at hdecode'
    exact congrArg StorageView.blocks (Except.ok.inj hdecode')

/-- Synchronization with the server of a history with more work takes over the history
exactly under its condition. -/
theorem Served.syncHistory_iff (hfits : blocks.flatten.length ≤ w.candidateCapacity)
    (capabilities : Option ℕ) {x : PeerSession × Bytes} (hx : Idle x) :
    Synchronized c (syncHistory p (servedTransport c blocks capacity) w stored.blocks recovery
      capabilities x) blocks s ↔ SyncCondition c w stored.blocks blocks := by
  have hloop : Ends (fun _ => ¬(_ ∧ SharesBlocks stored.blocks blocks)) _ _ :=
    hserved.syncBlocks hfits recovery hx
  simp only [syncHistory]
  split
  · next report hrun =>
      rw [hrun] at hloop
      constructor
      · rintro ⟨-, image', hpublished, -⟩
        simp [SyncOutcome.ended] at hpublished
      · intro h
        exact absurd ⟨h.count, h.shares⟩ hloop
  · next y hrun =>
      rw [hrun] at hloop
      obtain ⟨hcount, hy⟩ := hloop
      rw [hserved.syncAdopt_iff hread hstored hwork hencode hreplace capabilities hy]
      constructor
      · rintro ⟨hevidence, hshares⟩
        exact ⟨hcount, hevidence, hshares⟩
      · intro h
        exact ⟨h.evidence, h.shares⟩

end Session

/-- Two nodes in one context, of which the served one has a history with more work that
fits the candidate buffer of the other, can be stored and travels in frames both buffers
hold. -/
structure SyncOffer (c : ChainContext) (p : StorageStore) (w : PeerWorkspace c.hashProvider)
    (stored blocks : List Bytes) (s : ChainState) (capacity : ℕ) : Prop where
  read : ∃ view recovery, storageRecoveryRead c p.toStorageProvider w.storage.currentCapacity =
    .ok (view, recovery) ∧ view.blocks = stored
  work : ∃ t, Accepts c stored t ∧ t.cumulativeWork < s.cumulativeWork
  accepts : Accepts c blocks s
  fits : blocks.flatten.length ≤ w.candidateCapacity
  storable : ∃ image, storageEncode c blocks w.storage.nextCapacity = .ok image ∧
    p.replace image = .ok ()
  server : peerMaxFrame ≤ capacity
  client : peerMaxFrame ≤ w.frameCapacity

section Offer

variable {c : ChainContext} {p : StorageStore} {w : PeerWorkspace c.hashProvider}
  {stored blocks : List Bytes} {s : ChainState} {capacity : ℕ}
  (h : SyncOffer c p w stored blocks s capacity)

include h

theorem SyncOffer.served : Served c blocks s capacity w.frameCapacity := by
  obtain ⟨t, -, hwork⟩ := h.work
  obtain ⟨image, hencode, -⟩ := h.storable
  have hpolicy : c.powPolicy.isSome := by
    rw [Option.isSome_iff_ne_none]
    intro hnone
    have hzero := ((accepts_iff.mp h.accepts).2.anchored hnone).cumulativeWork
    simp [hzero] at hwork
  exact ⟨hpolicy, h.accepts, (storageEncode_eq_ok hencode).1, h.server, h.client⟩

/-- What follows the greeting takes over an offered history exactly under its condition. -/
theorem SyncOffer.history_iff {view : StorageView} (hview : view.blocks = stored)
    {recovery : Bool} (hread : storageRecoveryRead c p.toStorageProvider
      w.storage.currentCapacity = .ok (view, recovery)) (capabilities : Option ℕ)
    {x : PeerSession × Bytes} (hx : Idle x) :
    Synchronized c (syncHistory p (servedTransport c blocks capacity) w view.blocks recovery
      capabilities x) blocks s ↔ SyncCondition c w stored blocks := by
  obtain ⟨t, hstored, hwork⟩ := h.work
  obtain ⟨image, hencode, hreplace⟩ := h.storable
  subst hview
  exact h.served.syncHistory_iff hread hstored hwork hencode hreplace h.fits capabilities hx

theorem SyncOffer.synchronized_iff {session : PeerSession}
    (hsession : session.handshake = .established) :
    Synchronized c (syncSession true p (servedTransport c blocks capacity) w (session, []))
      blocks s ↔ SyncCondition c w stored blocks := by
  obtain ⟨view, recovery, hread, hview⟩ := h.read
  simp only [syncSession, hread, ↓reduceIte]
  exact h.history_iff hview hread none ⟨hsession, rfl⟩

/-- Synchronization over a faithful transport takes over an offered history exactly under
its condition. -/
theorem syncSession_iff {session : PeerSession} (established : Bool)
    (hsession : session.handshake = if established then .established else .awaited) :
    Synchronized c (syncSession established p (servedTransport c blocks capacity) w (session, []))
      blocks s ↔ SyncCondition c w stored blocks := by
  cases established with
  | true => exact h.synchronized_iff hsession
  | false =>
      obtain ⟨view, recovery, hread, hview⟩ := h.read
      obtain ⟨capabilities, hgreet⟩ := h.served.syncGreet rfl hsession
      simp only [syncSession, hread, Bool.false_eq_true, ↓reduceIte, hgreet]
      exact h.history_iff hview hread (some capabilities) (Idle.answered session)

end Offer

end

section Sample

/-! ## Sample synchronizations -/

namespace Sample

attribute [local instance] storing

/-- A storage that holds an image and takes any other. -/
def holding (image : Bytes) : StorageStore :=
  { storage image with replace := fun _ => .ok () }

/-- A workspace with a candidate buffer of a given size. -/
def workspace (candidateCapacity : ℕ) (pending : Option (Pending storingContext.hashProvider)) :
    PeerWorkspace storingContext.hashProvider where
  storage := ⟨4096, 4096⟩
  candidateCapacity
  frameCapacity := peerMaxFrame
  pending

/-- A session after its greeting. -/
def opened : PeerSession where
  known := none
  self := none
  discoverySent := false
  handshake := .established
  requests := 0

/-- The outcome of a synchronization of a node that stores the genesis block, over an
established session. -/
def synchronize (blocks : List Bytes) (candidateCapacity : ℕ)
    (pending : Option (Pending storingContext.hashProvider)) :
    SyncOutcome (PeerSession × Bytes) storingContext.hashProvider :=
  syncSession true (holding (imageOf [genesis]))
    (servedTransport storingContext blocks peerMaxFrame) (workspace candidateCapacity pending)
    (opened, [])

/-- An accepted history with more work than the genesis block is offered to a node that
stores the genesis block. -/
theorem syncOffer_of_accepted (blocks : List Bytes) (candidateCapacity : ℕ)
    (pending : Option (Pending storingContext.hashProvider))
    (haccepts : ((chainReconstructHistory storingContext blocks).2.any
      fun s => 31 < s.cumulativeWork) = true) (hcount : blocks.length < 2 ^ 32)
    (hsize : (storageSigned blocks).length + 32 ≤ 4096)
    (hfits : blocks.flatten.length ≤ candidateCapacity) :
    ∃ s, SyncOffer storingContext (holding (imageOf [genesis]))
      (workspace candidateCapacity pending) [genesis] blocks s peerMaxFrame := by
  obtain ⟨s, hs, hwork⟩ := accepts_of_any storingContext blocks _ haccepts
  obtain ⟨t, ht, hlow⟩ := accepts_genesis
  have hstored := storageEncode_imageOf ht (by decide) (by decide +kernel)
  have hdecode := storageDecode_of_encode (by decide) ht hstored
  have hlength : ¬(imageOf [genesis]).length > 4096 := by decide +kernel
  have hpolicy : ¬storingContext.powPolicy.isNone = true := by decide
  have hread : storageRecoveryRead storingContext (holding (imageOf [genesis])).toStorageProvider
      4096 = .ok (⟨[genesis], t⟩, false) := by
    obtain ⟨-, initial, hinit, -⟩ := accepts_iff.mp ht
    simp only [storageRecoveryRead, recoveryLocked, holding, storage, if_neg hpolicy, hinit,
      if_neg hlength, hdecode]
  refine ⟨s, ⟨⟨_, false, hread, rfl⟩, ⟨t, ht, ?_⟩, hs, hfits,
    ⟨_, storageEncode_imageOf hs hcount hsize, rfl⟩, le_rfl, le_rfl⟩⟩
  rw [hlow]
  exact of_decide_eq_true hwork

end Sample

attribute [local instance] Sample.storing

open Sample

/-- A history of two small blocks is over the bound on blocks though it fits the buffer, and
a history with block-compensation evidence fails the scan of an empty pool. -/
theorem sample_sync_refused :
    (∃ s, SyncOffer storingContext (holding (imageOf [genesis])) (workspace 336 none)
        [genesis] [genesis, empty] s peerMaxFrame ∧
      ¬Synchronized storingContext (synchronize [genesis, empty] 336 none) [genesis, empty] s) ∧
    ∃ s, SyncOffer storingContext (holding (imageOf [genesis]))
        (workspace 4096 (some (pendingInit _))) [genesis] [genesis, empty, shares, rewards] s
        peerMaxFrame ∧
      ¬Synchronized storingContext
        (synchronize [genesis, empty, shares, rewards] 4096 (some (pendingInit _)))
        [genesis, empty, shares, rewards] s := by
  constructor
  · obtain ⟨s, hs⟩ := syncOffer_of_accepted [genesis, empty] 336 none works_empty (by decide)
      (by decide +kernel) (by decide +kernel)
    refine ⟨s, hs, fun h => ?_⟩
    rw [synchronize, hs.synchronized_iff rfl] at h
    exact absurd h.count (by decide)
  · obtain ⟨s, hs⟩ := syncOffer_of_accepted [genesis, empty, shares, rewards] 4096
      (some (pendingInit _)) (by decide +kernel) (by decide) (by decide +kernel) (by decide +kernel)
    refine ⟨s, hs, fun h => ?_⟩
    rw [synchronize, hs.synchronized_iff rfl] at h
    have hany : (historyTransactions [genesis, empty, shares, rewards]).any
        (fun tx => tx.type = .blockCompensationEvidence) = true := by
      decide +kernel
    obtain ⟨tx, htx, htype⟩ := List.any_eq_true.mp hany
    exact h.evidence rfl tx htx (by simpa using htype)

/-- With room for as many blocks of the least size the two blocks are taken over. -/
theorem sample_sync_completes :
    ∃ s, Synchronized storingContext (synchronize [genesis, empty] 498 none)
      [genesis, empty] s := by
  obtain ⟨s, hs⟩ := syncOffer_of_accepted [genesis, empty] 498 none works_empty (by decide)
    (by decide +kernel) (by decide +kernel)
  refine ⟨s, (syncSession_iff hs true rfl).mpr ⟨by decide, by simp [workspace], ?_⟩⟩
  intro n left right _ hleft hright _
  match n with
  | 0 => exact Option.some.inj (hleft.symm.trans hright)
  | n + 1 => simp at hleft

end Sample

end StnChain
