import StnChain.Mining.Worker
import StnChain.Peer.Sync
import StnChain.Platform.LinuxPeer
import StnChain.Support.Framing

/-!
# Peers of the running node

The thread of `platforms/linux/stn_app_linux.c` that serves an inbound peer.  It takes a snapshot
of the storage and answers the requests that it cuts the octets of its connection into.
`inbound_thread_serves` says that all of its answers are those of one accepted history, whatever
the system does to its transfers and the other threads to the storage, and
`inbound_thread_answers` that all of them are sent if the system obliges.
-/

namespace StnChain

open Framing

/-! ## The transport of a connection -/

/-- The transport that `setup` makes of a connection. -/
def linuxTransport : PeerTransport LinuxPeer where
  send bytes peer :=
    match peer.sendAll bytes with
    | (.error status, _) => .error status
    | (.ok (), next) => .ok next
  receive length peer :=
    match peer.receiveAll length with
    | (.error status, _) => .error status
    | (.ok bytes, next) => .ok (bytes, next)
  exact := by
    intro length peer bytes next h
    split at h
    · cases h
    next got last hgot =>
    obtain ⟨rfl, rfl⟩ := Prod.mk.inj (Except.ok.inj h)
    obtain ⟨part, heffect⟩ := LinuxPeer.receiveAll_effect length [] hgot
    obtain ⟨rfl, hlength⟩ := heffect.ok got rfl
    exact hlength

/-- The frames of the peer protocol. -/
def peerFormat : Format UInt8 where
  header := peerHeaderSize
  body header := (peerHeader header).toOption.map Prod.snd

section Transport

variable {peer next : LinuxPeer} {bytes request : Bytes} {length : ℕ}

theorem linuxTransport_receive (h : linuxTransport.receive length peer = .ok (bytes, next)) :
    bytes.length = length ∧ peer.incoming = bytes ++ next.incoming ∧ next.sent = peer.sent := by
  refine ⟨linuxTransport.exact h, ?_⟩
  simp only [linuxTransport] at h
  split at h
  · cases h
  next got last hgot =>
  obtain ⟨rfl, rfl⟩ := Prod.mk.inj (Except.ok.inj h)
  obtain ⟨part, heffect⟩ := LinuxPeer.receiveAll_effect length [] hgot
  obtain ⟨rfl, -⟩ := heffect.ok got rfl
  exact ⟨heffect.moves.incoming, heffect.moves.sent.trans (List.append_nil _)⟩

/-- A frame that is received is the first of the stream. -/
theorem peerReceive_next {capacity : ℕ}
    (h : peerReceive linuxTransport capacity peer = .ok (request, next)) :
    peerFormat.next peer.incoming = some (request, next.incoming) ∧ next.sent = peer.sent := by
  unfold peerReceive at h
  split at h
  · cases h
  split at h
  · cases h
  next header first hfirst =>
  obtain ⟨hheader, hincoming, hsent⟩ := linuxTransport_receive hfirst
  split at h
  · cases h
  next type size hdecode =>
  have hbody : peerFormat.body header = some size := by
    simp only [peerFormat, hdecode]
    rfl
  split at h
  · cases h
  split at h
  · next hsize =>
      obtain ⟨rfl, rfl⟩ := Prod.mk.inj (Except.ok.inj h)
      refine ⟨?_, hsent⟩
      rw [hincoming]
      have hbody : peerFormat.body header = some ([] : Bytes).length := by
        rw [hbody, hsize]
        rfl
      have hnext := Format.next_of_parts hheader hbody first.incoming
      rwa [List.append_nil] at hnext
  split at h
  · cases h
  next payload second hsecond =>
  obtain ⟨rfl, rfl⟩ := Prod.mk.inj (Except.ok.inj h)
  obtain ⟨hpayload, hincoming', hsent'⟩ := linuxTransport_receive hsecond
  refine ⟨?_, hsent'.trans hsent⟩
  rw [hincoming, hincoming', ← List.append_assoc]
  exact Format.next_of_parts hheader (hpayload ▸ hbody) second.incoming

theorem LinuxPeer.sendAll_part {r : Except PeerStatus Unit} (h : peer.sendAll bytes = (r, next)) :
    next.incoming = peer.incoming ∧ (∃ part, part <+: bytes ∧ next.sent = peer.sent ++ part) ∧
      (r = .ok () → next.sent = peer.sent ++ bytes) := by
  unfold LinuxPeer.sendAll at h
  split at h
  · obtain ⟨rfl, rfl⟩ := Prod.mk.inj h
    exact ⟨rfl, ⟨[], List.nil_prefix, (List.append_nil _).symm⟩, by simp⟩
  have hkept := peer.moveLoop_kept peer.rounds (Nat.zero_le bytes.length) (Nat.zero_le bytes.length)
  obtain ⟨rfl, rfl⟩ := Prod.mk.inj h
  refine ⟨rfl, ⟨_, List.take_prefix _ bytes, rfl⟩, fun hok => ?_⟩
  dsimp only
  rw [hkept.complete hok, List.take_length]

end Transport

/-! ## The thread of a peer -/

section

variable [Primitives]

/-- The answer to a request of a session, from some blocks. -/
def serveAnswer (c : ChainContext) (blocks : List Bytes) (request : Bytes)
    (session : PeerSession) : Option Bytes × PeerSession :=
  let served := peerServe c blocks session request peerMaxFrame
  (served.2.toOption, served.1)

/-- The loop of `inbound_client_thread`, with so many rounds before it is told to stop. -/
def inboundLoop (c : ChainContext) (blocks : List Bytes) :
    ℕ → LinuxPeer → PeerSession → LinuxPeer × PeerSession
  | 0, peer, session => (peer, session)
  | turns + 1, peer, session =>
      match peerReceive linuxTransport peerMaxFrame peer with
      | .error _ => (peer, session)
      | .ok (request, peer) =>
          match serveAnswer c blocks request session with
          | (none, session) => (peer, session)
          | (some response, session) =>
              match peer.sendAll response with
              | (.error _, peer) => (peer, session)
              | (.ok (), peer) => inboundLoop c blocks turns peer session

variable {σ : Type}

/-- The snapshot of `inbound_client_thread`: the blocks of the image, whose size is read first.
In between the other threads use the storage. -/
def inboundSnapshot (c : ChainContext) (d : StorageDevice σ) (neededBytes : σ → ℕ)
    (uses : List StorageUse) (p : ChainState × σ) :
    Except StorageStatus (List Bytes) × (ChainState × σ) :=
  match d.acquire p.2 with
  | (.error status, x) => (.error status, (p.1, x))
  | (.ok (), x) =>
      let needed := neededBytes x
      let (probe, x) := d.read 0 x
      let p := storageUses c d uses (p.1, d.release x)
      let load : Except StorageStatus (List Bytes) × (ChainState × σ) :=
        let (loaded, x) := storageLoad c d needed p.2
        (loaded.map StorageView.blocks, (p.1, x))
      match probe with
      | .ok _ => if needed = 0 then (.ok [], p) else load
      | .error status => if status = .capacity ∧ needed ≠ 0 then load else (.error status, p)

/-- The session that `inbound_client_thread` starts with. -/
def inboundSession (known : Option (List PeerEndpoint)) : PeerSession :=
  ⟨known, none, false, .awaited, 0⟩

/-- `inbound_client_thread`. -/
def inboundClientThread (c : ChainContext) (d : StorageDevice σ) (neededBytes : σ → ℕ)
    (uses : List StorageUse) (known : Option (List PeerEndpoint)) (turns : ℕ) (peer : LinuxPeer)
    (p : ChainState × σ) : LinuxPeer × (ChainState × σ) :=
  match inboundSnapshot c d neededBytes uses p with
  | (.error _, p) => (peer, p)
  | (.ok blocks, p) => ((inboundLoop c blocks turns peer (inboundSession known)).1, p)

variable {c : ChainContext} {d : StorageDevice σ} {neededBytes : σ → ℕ} {uses : List StorageUse}
  {p p' : ChainState × σ} {blocks : List Bytes} {v : StorageView}

/-- The loop is a server of the octets that arrive. -/
theorem inboundLoop_serves (c : ChainContext) (blocks : List Bytes) (turns : ℕ)
    (peer : LinuxPeer) (session : PeerSession) :
    ∃ part, (inboundLoop c blocks turns peer session).1.sent = peer.sent ++ part ∧
      Framing.Serves peerFormat (serveAnswer c blocks) peer.incoming session part
        (inboundLoop c blocks turns peer session).2 := by
  induction turns generalizing peer session with
  | zero => exact ⟨[], (List.append_nil _).symm, .stopped _ session⟩
  | succ turns ih =>
      unfold inboundLoop
      split
      · exact ⟨[], (List.append_nil _).symm, .stopped _ session⟩
      next request first hfirst =>
      obtain ⟨hnext, hkept⟩ := peerReceive_next hfirst
      split
      · next session' hrefused =>
          exact ⟨[], by rw [hkept, List.append_nil], .refused hnext hrefused⟩
      next response session' hanswer =>
      split
      · next hsend =>
          obtain ⟨-, ⟨part, hpart, hlast⟩, -⟩ := LinuxPeer.sendAll_part hsend
          exact ⟨part, by rw [hlast, hkept], .broken hnext hanswer hpart⟩
      · next second hsend =>
          obtain ⟨hleft, -, hall⟩ := LinuxPeer.sendAll_part hsend
          obtain ⟨part, hpart, hserves⟩ := ih second session'
          rw [hleft] at hserves
          refine ⟨response ++ part, ?_, .served hnext hanswer hserves⟩
          rw [hpart, hall rfl, hkept, List.append_assoc]

/-- A snapshot that has blocks has those of the history that is then stored. -/
theorem inboundSnapshot_stored (hstored : Holds c d p.2 v) (hactive : p.1 = v.state)
    {r : Except StorageStatus (List Bytes)}
    (h : inboundSnapshot c d neededBytes uses p = (r, p')) :
    ∃ u, Holds c d p'.2 u ∧ v.Advances u ∧
      ∀ blocks, r = .ok blocks → blocks = [] ∨ blocks = u.blocks := by
  obtain ⟨image, himage, hdecode⟩ := hstored
  have hacquire := d.acquire_persisted p.2
  unfold inboundSnapshot at h
  split at h
  · next x hx =>
      obtain ⟨rfl, rfl⟩ := Prod.mk.inj h
      rw [hx] at hacquire
      exact ⟨v, ⟨image, hacquire.trans himage, hdecode⟩, .inl rfl, by simp⟩
  next x hx =>
  rw [hx] at hacquire
  have hprobed : Holds c d (d.release (d.read 0 x).2) v :=
    ⟨image, by rw [d.release_persisted, d.read_persisted, hacquire, himage], hdecode⟩
  obtain ⟨u, hholds, -, hadvances⟩ := storageUses_coherent
    (p := (p.1, d.release (d.read 0 x).2)) hprobed hactive uses
  dsimp only at h
  generalize storageUses c d uses (p.1, d.release (d.read 0 x).2) = q at h hholds
  have hloaded : ∀ blocks, (storageLoad c d (neededBytes x) q.2).1.map StorageView.blocks =
      .ok blocks → blocks = u.blocks := by
    intro blocks hblocks
    obtain ⟨view, hview, rfl⟩ := map_eq_ok hblocks
    rw [hholds.loaded hview]
  have hafter : Holds c d (storageLoad c d (neededBytes x) q.2).2 u := by
    obtain ⟨stored, hstored, hdecode'⟩ := hholds
    exact ⟨stored, (storageLoad_persisted c d _ q.2).trans hstored, hdecode'⟩
  split at h
  · split at h
    · obtain ⟨rfl, rfl⟩ := Prod.mk.inj h
      exact ⟨u, hholds, hadvances, fun blocks hok => .inl (Except.ok.inj hok).symm⟩
    · obtain ⟨rfl, rfl⟩ := Prod.mk.inj h
      exact ⟨u, hafter, hadvances, fun blocks hok => .inr (hloaded blocks hok)⟩
  · split at h
    · obtain ⟨rfl, rfl⟩ := Prod.mk.inj h
      exact ⟨u, hafter, hadvances, fun blocks hok => .inr (hloaded blocks hok)⟩
    · obtain ⟨rfl, rfl⟩ := Prod.mk.inj h
      exact ⟨u, hholds, hadvances, by simp⟩

omit [Primitives] in
theorem toOption_eq_some {ε α : Type} {x : Except ε α} {a : α} (h : x.toOption = some a) :
    x = .ok a := by
  cases x with
  | error e => cases h
  | ok b => rw [Option.some.inj h]

/-- Nothing is answered without blocks. -/
theorem serveAnswer_nil (c : ChainContext) (request : Bytes) (session : PeerSession) :
    (serveAnswer c [] request session).1 = none := by
  have hinvalid : peerValidate c [] = .error .validation := by
    simp only [peerValidate, true_or, or_true, if_true]
  simp only [serveAnswer, peerServe, hinvalid]
  split
  · rfl
  split
  · rfl
  · rfl

/-- An answer that is given is encoded. -/
theorem peerServe_encoded {session session' : PeerSession} {request frame : Bytes}
    {capacity : ℕ} (h : peerServe c blocks session request capacity = (session', .ok frame)) :
    ∃ type payload, peerEncode type payload capacity = .ok frame := by
  unfold peerServe at h
  split at h
  · cases h
  split at h
  · cases h
  split at h
  · cases h
  split at h
  · cases h
  dsimp only at h
  split at h
  · cases h
  next answer _ =>
  split at h
  · cases h
  · next encoded hencoded =>
      obtain ⟨-, hframe⟩ := Prod.mk.inj h
      obtain rfl := Except.ok.inj hframe
      exact ⟨answer.type, answer.payload, hencoded⟩

/-- An answer is one frame, whatever follows it. -/
theorem serveAnswer_next {request response : Bytes} {session session' : PeerSession}
    (h : serveAnswer c blocks request session = (some response, session')) (rest : Bytes) :
    peerFormat.next (response ++ rest) = some (response, rest) := by
  obtain ⟨hanswer, -⟩ := Prod.mk.inj h
  obtain ⟨type, payload, hencode⟩ :=
    peerServe_encoded (Prod.ext rfl (toOption_eq_some hanswer))
  obtain ⟨hsize, hdiscovery, -, rfl⟩ := peerEncode_eq_ok hencode
  apply Format.next_of_parts (length_peerHeaderBytes type payload.length)
  simp only [peerFormat, peerHeader_bytes hsize hdiscovery]
  rfl

theorem serveAnswers_cut {requests responses : List Bytes} {session session' : PeerSession}
    (h : answers (serveAnswer c blocks) requests session = (responses, session')) :
    Cuts peerFormat responses.flatten responses [] := by
  induction requests generalizing session responses with
  | nil =>
      obtain ⟨rfl, -⟩ := Prod.mk.inj h
      exact .nil []
  | cons request rest ih =>
      unfold answers at h
      rcases hanswer : serveAnswer c blocks request session with ⟨sent, next⟩
      rw [hanswer] at h
      cases sent with
      | none =>
          obtain ⟨rfl, -⟩ := Prod.mk.inj h
          exact .nil []
      | some response =>
          dsimp only at h
          rcases hrest : answers (serveAnswer c blocks) rest next with ⟨others, last⟩
          rw [hrest] at h
          obtain ⟨rfl, rfl⟩ := Prod.mk.inj h
          rw [List.flatten_cons]
          exact .cons (serveAnswer_next hanswer _) (ih hrest)

/-- A peer has been served from some blocks: the requests that the octets of its connection are
cut into have been answered, each once and in their order, and what has been sent is the front
of the answers, with all but the last, and only they can be cut out of it again. -/
structure ServedFrom (c : ChainContext) (blocks : List Bytes) (known : Option (List PeerEndpoint))
    (peer next : LinuxPeer) (requests responses : List Bytes) (sent : Bytes) : Prop where
  cuts : ∃ rest, Cuts peerFormat peer.incoming requests rest
  answered : (answers (serveAnswer c blocks) requests (inboundSession known)).1 = responses
  octets : next.sent = peer.sent ++ sent
  front : sent <+: responses.flatten
  all : responses.dropLast.flatten <+: sent
  length : requests.length ≤ responses.length + 1
  frames : Cuts peerFormat responses.flatten responses []
  read : ∀ frames last, Cuts peerFormat sent frames last → frames <+: responses

theorem ServedFrom.silent (c : ChainContext) (blocks : List Bytes)
    (known : Option (List PeerEndpoint)) {peer next : LinuxPeer} (h : next.sent = peer.sent) :
    ServedFrom c blocks known peer next [] [] [] where
  cuts := ⟨peer.incoming, .nil _⟩
  answered := rfl
  octets := by rw [h, List.append_nil]
  front := List.nil_prefix
  all := List.nil_prefix
  length := Nat.zero_le _
  frames := .nil []
  read _ _ hcut := Cuts.front (by decide) (.nil []) rfl List.nil_prefix hcut

theorem inboundLoop_from (c : ChainContext) (blocks : List Bytes)
    (known : Option (List PeerEndpoint)) (turns : ℕ) (peer : LinuxPeer) :
    ∃ requests responses sent, ServedFrom c blocks known peer
      (inboundLoop c blocks turns peer (inboundSession known)).1 requests responses sent := by
  obtain ⟨sent, hsent, hserves⟩ := inboundLoop_serves c blocks turns peer (inboundSession known)
  obtain ⟨requests, rest, responses, hcuts, hanswers, hfront, hall, hlength⟩ := hserves.spec
  have hframes := serveAnswers_cut hanswers
  exact ⟨requests, responses, sent, ⟨rest, hcuts⟩, by rw [hanswers], hsent, hfront, hall, hlength,
    hframes, fun _ _ hcut => hframes.front (by decide) rfl hfront hcut⟩

/-- Nothing is sent to a peer that is served from no blocks. -/
theorem ServedFrom.of_nil {known : Option (List PeerEndpoint)} {peer next : LinuxPeer}
    {requests responses : List Bytes} {sent : Bytes}
    (h : ServedFrom c [] known peer next requests responses sent) : next.sent = peer.sent := by
  have hnone : responses = [] := by
    rw [← h.answered]
    cases requests with
    | nil => rfl
    | cons request rest =>
        have hrefused := serveAnswer_nil c request (inboundSession known)
        unfold answers
        generalize serveAnswer c [] request (inboundSession known) = answer at hrefused
        obtain ⟨sent, session⟩ := answer
        obtain rfl : sent = none := hrefused
        rfl
  have hfront := h.front
  rw [hnone, List.flatten_nil, List.prefix_nil] at hfront
  rw [h.octets, hfront, List.append_nil]

/-- Whatever the system answers and however the other threads use the storage: the thread of an
inbound peer serves it from one accepted history, which was stored when it was read. -/
theorem inbound_thread_serves (hstored : Holds c d p.2 v) (hactive : p.1 = v.state)
    (neededBytes : σ → ℕ) (uses : List StorageUse) (known : Option (List PeerEndpoint))
    (turns : ℕ) (peer : LinuxPeer) :
    let ended := inboundClientThread c d neededBytes uses known turns peer p
    ∃ u requests responses sent, Holds c d ended.2.2 u ∧ v.Advances u ∧
      Accepts c u.blocks u.state ∧
      ServedFrom c u.blocks known peer ended.1 requests responses sent := by
  intro ended
  obtain ⟨⟨r, p'⟩, hsnapshot⟩ : ∃ s, inboundSnapshot c d neededBytes uses p = s := ⟨_, rfl⟩
  obtain ⟨u, hholds, hadvances, hblocks⟩ := inboundSnapshot_stored hstored hactive hsnapshot
  have haccepts : Accepts c u.blocks u.state := by
    obtain ⟨image, -, hdecode⟩ := hholds
    exact (storageDecode_image hdecode).2.1
  cases r with
  | error status =>
      have hended : ended = (peer, p') := by
        simp only [ended, inboundClientThread, hsnapshot]
      rw [hended]
      exact ⟨u, [], [], [], hholds, hadvances, haccepts, .silent c u.blocks known rfl⟩
  | ok blocks =>
      have hended : ended = ((inboundLoop c blocks turns peer (inboundSession known)).1, p') := by
        simp only [ended, inboundClientThread, hsnapshot]
      obtain ⟨requests, responses, sent, hserved⟩ := inboundLoop_from c blocks known turns peer
      rw [hended]
      rcases hblocks blocks rfl with hnil | hsame
      · rw [hnil] at hserved ⊢
        exact ⟨u, [], [], [], hholds, hadvances, haccepts, .silent c u.blocks known hserved.of_nil⟩
      · rw [hsame] at hserved ⊢
        exact ⟨u, requests, responses, sent, hholds, hadvances, haccepts, hserved⟩

/-! ## Systems that oblige -/

/-- The system obliges the calls of an inbound peer's thread for some requests and the answers
to them. -/
def LinuxPeer.ObligedServing (c : ChainContext) (blocks : List Bytes) :
    List Bytes → LinuxPeer → PeerSession → Prop
  | [], _, _ => True
  | request :: requests, peer, session =>
      let size := request.length - peerHeaderSize
      let first := (peer.receiveAll peerHeaderSize).2
      let second := (first.receiveAll size).2
      RoundsOblige peer.deadline peerHeaderSize peer.rounds first.rounds ∧
        RoundsOblige first.deadline size first.rounds second.rounds ∧
        match serveAnswer c blocks request session with
        | (none, _) => True
        | (some response, session) =>
            let third := (second.sendAll response).2
            RoundsOblige second.deadline response.length second.rounds third.rounds ∧
              ObligedServing c blocks requests third session

omit [Primitives] in
/-- A call that receives octets on their way gets them if the system obliges it. -/
theorem LinuxPeer.Connected.receiveAll {peer : LinuxPeer} (h : peer.Connected) {length : ℕ}
    (hlength : length ≤ peer.incoming.length) (hsize : length ≤ peerMaxFrame)
    (hrounds : RoundsOblige peer.deadline length peer.rounds (peer.receiveAll length).2.rounds) :
    ∃ next, peer.receiveAll length = (.ok (peer.incoming.take length), next) ∧ next.Connected ∧
      next.incoming = peer.incoming.drop length ∧ next.sent = peer.sent := by
  have hoffers : peer.Offers [] (.receive length) := hlength
  have hdone : peer.Succeeds length (peer.receiveAll length).1 (peer.receiveAll length).2 :=
    h.transferPart hsize hoffers le_rfl hrounds
  obtain ⟨got, hok⟩ := hdone.ok
  obtain ⟨part, heffect⟩ := LinuxPeer.receiveAll_effect length [] (Prod.ext hok rfl)
  obtain ⟨rfl, hgot⟩ := heffect.ok got rfl
  have hincoming : peer.incoming = got ++ (peer.receiveAll length).2.incoming :=
    heffect.moves.incoming
  refine ⟨_, Prod.ext ?_ rfl, hdone.connected, ?_, heffect.moves.sent.trans (List.append_nil _)⟩
  · rw [hok, hincoming, List.take_left' hgot]
  · rw [hincoming, List.drop_left' hgot]

omit [Primitives] in
theorem LinuxPeer.Connected.sendAll {peer : LinuxPeer} (h : peer.Connected) {bytes : Bytes}
    (hsize : bytes.length ≤ peerMaxFrame)
    (hrounds : RoundsOblige peer.deadline bytes.length peer.rounds (peer.sendAll bytes).2.rounds) :
    ∃ next, peer.sendAll bytes = (.ok (), next) ∧ next.Connected ∧
      next.incoming = peer.incoming ∧ next.sent = peer.sent ++ bytes := by
  have hframe : ¬bytes.length > peerMaxFrame := Nat.not_lt.mpr hsize
  have hok : (peer.sendAll bytes).1 = .ok () := by
    simp only [LinuxPeer.sendAll, if_neg hframe] at hrounds ⊢
    exact (h.moveLoop le_rfl (Nat.zero_le _) hrounds).1
  have hconnected : (peer.sendAll bytes).2.Connected := by
    simp only [LinuxPeer.sendAll, if_neg hframe]
    exact ⟨h.opened, h.ioTimeout⟩
  have hpart : peer.sendAll bytes = (.ok (), (peer.sendAll bytes).2) := Prod.ext hok rfl
  obtain ⟨hincoming, -, hsent⟩ := LinuxPeer.sendAll_part hpart
  exact ⟨_, hpart, hconnected, hincoming, hsent rfl⟩

omit [Primitives] in
theorem peerHeader_size {header : Bytes} {type : PeerType} {size : ℕ}
    (h : peerHeader header = .ok (type, size)) : size ≤ peerMaxFrame - peerHeaderSize := by
  unfold peerHeader at h
  split at h
  · cases h
  split at h
  · cases h
  dsimp only at h
  split at h
  · cases h
  next hvalid =>
  obtain ⟨rfl, rfl⟩ := Prod.mk.inj (Except.ok.inj h)
  rw [peerMaxFrame, Nat.add_sub_cancel_left]
  exact Nat.le_of_not_gt fun hlarge => hvalid (.inl hlarge)

omit [Primitives] in
/-- Nothing is received without a call. -/
theorem LinuxPeer.receiveAll_zero (peer : LinuxPeer) : peer.receiveAll 0 = (.ok [], peer) := by
  obtain ⟨opened, ioTimeout, deadline, rounds, incoming, sent⟩ := peer
  have hframe : ¬0 > peerMaxFrame := Nat.not_lt_zero _
  cases rounds <;> simp [LinuxPeer.receiveAll, LinuxPeer.moveLoop, hframe, Except.map]

omit [Primitives] in
/-- A frame at the front of the stream is received if the system obliges. -/
theorem LinuxPeer.Connected.receiveFrame {peer : LinuxPeer} (h : peer.Connected)
    {frame rest : Bytes} (hnext : peerFormat.next peer.incoming = some (frame, rest))
    (hheader : RoundsOblige peer.deadline peerHeaderSize peer.rounds
      (peer.receiveAll peerHeaderSize).2.rounds)
    (hbody : RoundsOblige (peer.receiveAll peerHeaderSize).2.deadline
      (frame.length - peerHeaderSize) (peer.receiveAll peerHeaderSize).2.rounds
      ((peer.receiveAll peerHeaderSize).2.receiveAll (frame.length - peerHeaderSize)).2.rounds) :
    ∃ next, ((peer.receiveAll peerHeaderSize).2.receiveAll (frame.length - peerHeaderSize)).2 =
        next ∧ peerReceive linuxTransport peerMaxFrame peer = .ok (frame, next) ∧
      next.Connected ∧ next.incoming = rest ∧ next.sent = peer.sent := by
  obtain ⟨hlong, hdecoded, hbound, hframe, hrest⟩ := Format.parts_of_next hnext
  have hsize : peerFormat.header = peerHeaderSize := rfl
  rw [hsize] at hlong hdecoded hbound hframe hrest
  generalize frame.length - peerHeaderSize = n at hbody hdecoded hbound hframe hrest ⊢
  obtain ⟨first, hfirst, hconnected₁, hincoming₁, hsent₁⟩ :=
    h.receiveAll hlong (by decide) hheader
  obtain ⟨type, hdecode⟩ : ∃ type, peerHeader (peer.incoming.take peerHeaderSize) =
      .ok (type, n) := by
    simp only [peerFormat] at hdecoded
    obtain ⟨⟨type, size⟩, hsome, rfl⟩ := Option.map_eq_some_iff.mp hdecoded
    exact ⟨type, toOption_eq_some hsome⟩
  have hlimit : n ≤ peerMaxFrame - peerHeaderSize := peerHeader_size hdecode
  rw [hfirst] at hbody ⊢
  have havailable : n ≤ first.incoming.length := hincoming₁ ▸ hbound
  obtain ⟨second, hsecond, hconnected₂, hincoming₂, hsent₂⟩ :=
    hconnected₁.receiveAll havailable (hlimit.trans (Nat.sub_le _ _)) hbody
  have hframe : peer.incoming.take peerHeaderSize ++ first.incoming.take n = frame :=
    hincoming₁ ▸ hframe
  refine ⟨second, by rw [hsecond], ?_, hconnected₂, ?_, hsent₂.trans hsent₁⟩
  · have hroom : ¬peerMaxFrame < peerHeaderSize := by decide
    simp only [peerReceive, if_neg hroom, linuxTransport, hfirst, hdecode,
      if_neg (Nat.not_lt.mpr hlimit)]
    by_cases hempty : n = 0
    · subst hempty
      obtain ⟨-, rfl⟩ := Prod.mk.inj ((LinuxPeer.receiveAll_zero first).symm.trans hsecond)
      rw [if_pos rfl, ← hframe, List.take_zero, List.append_nil]
    · rw [if_neg hempty, hsecond, ← hframe]
  · rw [hincoming₂, hincoming₁]
    exact hrest

/-- If the system obliges, the thread answers the requests at the front of its stream. -/
theorem inboundLoop_answers {peer : LinuxPeer} {session session' : PeerSession}
    {requests responses : List Bytes} {rest : Bytes} {turns : ℕ} (hconnected : peer.Connected)
    (hcuts : Cuts peerFormat peer.incoming requests rest)
    (hanswers : answers (serveAnswer c blocks) requests session = (responses, session'))
    (hall : requests.length = responses.length) (hturns : requests.length ≤ turns)
    (hobliged : peer.ObligedServing c blocks requests session) :
    peer.sent ++ responses.flatten <+: (inboundLoop c blocks turns peer session).1.sent := by
  generalize hstream : peer.incoming = stream at hcuts
  induction hcuts generalizing peer session responses turns with
  | nil stream =>
      obtain rfl := List.eq_nil_of_length_eq_zero hall.symm
      obtain ⟨part, hpart, -⟩ := inboundLoop_serves c blocks turns peer session
      rw [hpart, List.flatten_nil, List.append_nil]
      exact List.prefix_append _ _
  | @cons stream frame tail last requests hnext hrest ih =>
      subst hstream
      cases turns with
      | zero => exact absurd hturns (by simp)
      | succ turns =>
      obtain ⟨response, next, later, hserve, hlater, rfl, hall'⟩ := answers_cons hanswers hall
      unfold LinuxPeer.ObligedServing at hobliged
      simp only [hserve] at hobliged
      obtain ⟨hheader, hbody, hsend, hobliged'⟩ := hobliged
      obtain ⟨first, hfirst, hreceive, hconnected₁, hincoming₁, hsent₁⟩ :=
        hconnected.receiveFrame hnext hheader hbody
      rw [hfirst] at hsend hobliged'
      have hfits : response.length ≤ peerMaxFrame := by
        obtain ⟨hanswer, -⟩ := Prod.mk.inj hserve
        obtain ⟨type, payload, hencode⟩ :=
          peerServe_encoded (Prod.ext rfl (toOption_eq_some hanswer))
        obtain ⟨-, -, hroom, rfl⟩ := peerEncode_eq_ok hencode
        rw [List.length_append, length_peerHeaderBytes]
        exact hroom
      obtain ⟨second, hsecond, hconnected₂, hincoming₂, hsent₂⟩ := hconnected₁.sendAll hfits hsend
      rw [hsecond] at hobliged'
      rw [List.length_cons] at hturns
      have hserved := ih hconnected₂ hlater hall' (Nat.le_of_succ_le_succ hturns) hobliged'
        (hincoming₂.trans hincoming₁)
      simp only [inboundLoop, hreceive, hserve, hsecond]
      rw [hsent₂, hsent₁, List.append_assoc] at hserved
      exact hserved

/-- A thread with a snapshot runs its loop. -/
theorem inboundClientThread_loop {known : Option (List PeerEndpoint)} {turns : ℕ}
    {peer : LinuxPeer} (h : (inboundSnapshot c d neededBytes uses p).1 = .ok blocks) :
    (inboundClientThread c d neededBytes uses known turns peer p).1 =
      (inboundLoop c blocks turns peer (inboundSession known)).1 := by
  have hpair : inboundSnapshot c d neededBytes uses p =
      (.ok blocks, (inboundSnapshot c d neededBytes uses p).2) := Prod.ext h rfl
  unfold inboundClientThread
  rw [hpair]

/-- If every call moves something, an inbound peer receives the answers to all of its requests
that are not refused. -/
theorem inbound_thread_answers {known : Option (List PeerEndpoint)} {requests : List Bytes}
    {rest : Bytes} {turns : ℕ} {peer : LinuxPeer}
    (hsnapshot : (inboundSnapshot c d neededBytes uses p).1 = .ok blocks)
    (hconnected : peer.Connected) (hcuts : Cuts peerFormat peer.incoming requests rest)
    (hall : requests.length =
      (answers (serveAnswer c blocks) requests (inboundSession known)).1.length)
    (hturns : requests.length ≤ turns)
    (hobliged : peer.ObligedServing c blocks requests (inboundSession known)) :
    peer.sent ++ (answers (serveAnswer c blocks) requests (inboundSession known)).1.flatten <+:
      (inboundClientThread c d neededBytes uses known turns peer p).1.sent := by
  rw [inboundClientThread_loop hsnapshot]
  exact inboundLoop_answers hconnected hcuts rfl hall hturns hobliged

end

section Sample

attribute [local instance] Sample.storing

namespace Sample

/-- A greeting of the sample network. -/
def hello : Bytes :=
  peerHeaderBytes .hello 68 ++ (peerHello storingContext).toOption.getD []

/-- A request for the summary of the history. -/
def askState : Bytes := peerHeaderBytes .state 0

/-- A round that moves what is asked for, up to a hundred octets. -/
def swift : PeerRound := ⟨1, .ready, .moved 100⟩

/-- A peer that greets and asks for the summary. -/
def caller : LinuxPeer := ⟨true, 1, 0, List.replicate 105 swift, hello ++ askState, []⟩

/-- The answers to it, and the session after them. -/
def callerServed : List Bytes × PeerSession :=
  answers (serveAnswer storingContext [genesis]) [hello, askState] (inboundSession none)

/-- A connection on which so many swift rounds are left. -/
structure Swift (n : ℕ) (peer : LinuxPeer) : Prop where
  connected : peer.Connected
  deadline : peer.deadline = 0
  rounds : peer.rounds = List.replicate n swift

variable {n length : ℕ} {peer : LinuxPeer}

theorem Swift.obliges (h : Swift n peer) (left : List PeerRound) (hlength : length ≤ n) :
    RoundsOblige peer.deadline length peer.rounds left := by
  refine ⟨by rwa [h.rounds, List.length_replicate], fun used hused round hround => ?_⟩
  rw [h.rounds] at hused
  have hmem : round ∈ List.replicate n swift := hused ▸ List.mem_append_left left hround
  rw [List.eq_of_mem_replicate hmem]
  exact ⟨.inl h.deadline, rfl, 99, rfl⟩

theorem Swift.moveLoop (h : Swift (n + 1) peer) {available : ℕ} (hpositive : 0 < length)
    (hsmall : length ≤ 100) (havailable : length ≤ available) :
    peer.moveLoop length available peer.rounds 0 = ⟨.ok (), length, List.replicate n swift⟩ := by
  rw [h.rounds]
  exact h.connected.moveLoop_once _ ⟨.inl h.deadline, rfl, 99, rfl⟩ rfl hpositive hsmall havailable

theorem Swift.receiveAll (h : Swift (n + 1) peer) (hpositive : 0 < length) (hsmall : length ≤ 100)
    (havailable : length ≤ peer.incoming.length) :
    Swift n (peer.receiveAll length).2 ∧
      (peer.receiveAll length).2.incoming = peer.incoming.drop length := by
  have hframe : ¬length > peerMaxFrame := Nat.not_lt.mpr (hsmall.trans (by decide))
  simp only [LinuxPeer.receiveAll, if_neg hframe, h.moveLoop hpositive hsmall havailable, and_true]
  exact ⟨⟨h.connected.opened, h.connected.ioTimeout⟩, h.deadline, rfl⟩

theorem Swift.sendAll (h : Swift (n + 1) peer) {bytes : Bytes} (hpositive : 0 < bytes.length)
    (hsmall : bytes.length ≤ 100) :
    Swift n (peer.sendAll bytes).2 ∧ (peer.sendAll bytes).2.incoming = peer.incoming := by
  have hframe : ¬bytes.length > peerMaxFrame := Nat.not_lt.mpr (hsmall.trans (by decide))
  simp only [LinuxPeer.sendAll, if_neg hframe, h.moveLoop hpositive hsmall le_rfl, and_true]
  exact ⟨⟨h.connected.opened, h.connected.ioTimeout⟩, h.deadline, rfl⟩

theorem caller_swift : Swift 105 caller :=
  ⟨⟨rfl, by decide⟩, rfl, rfl⟩

theorem length_greeting : ((peerHello storingContext).toOption.getD []).length = 68 := by
  decide +kernel

theorem length_hello : hello.length = 80 := by
  rw [hello, List.length_append, length_peerHeaderBytes, length_greeting]
  rfl

theorem caller_cuts : Cuts peerFormat caller.incoming [hello, askState] [] := by
  have hbody : peerFormat.body (peerHeaderBytes .hello 68) =
      some ((peerHello storingContext).toOption.getD []).length := by
    rw [length_greeting]
    decide
  have hfirst : peerFormat.next caller.incoming = some (hello, askState) :=
    Format.next_of_parts (length_peerHeaderBytes _ _) hbody askState
  have hsecond : peerFormat.next askState = some (askState, []) := by decide +kernel
  exact .cons hfirst (.cons hsecond (.nil []))

theorem callerServed_lengths : callerServed.1.map List.length = [80, 96] := by
  decide +kernel

theorem callerServed_two : callerServed.1.length = 2 := by
  rw [← List.length_map List.length, callerServed_lengths]
  rfl

/-- The greeting is answered, and then the request. -/
theorem caller_answered : ∃ greeting session summary last,
    serveAnswer storingContext [genesis] hello (inboundSession none) = (some greeting, session) ∧
      serveAnswer storingContext [genesis] askState session = (some summary, last) ∧
      greeting.length = 80 ∧ summary.length = 96 := by
  have hserved : answers (serveAnswer storingContext [genesis]) [hello, askState]
      (inboundSession none) = callerServed := rfl
  have hlengths := callerServed_lengths
  have htwo := callerServed_two
  generalize callerServed = served at hserved hlengths htwo
  obtain ⟨responses, last⟩ := served
  obtain ⟨greeting, session, later, hgreeting, hlater, rfl, hone⟩ :=
    answers_cons hserved htwo.symm
  obtain ⟨summary, session', rest, hsummary, -, rfl, -⟩ := answers_cons hlater hone
  simp only [List.map_cons, List.cons.injEq] at hlengths
  exact ⟨greeting, session, summary, session', hgreeting, hsummary, hlengths.1, hlengths.2.1⟩

theorem caller_obliged :
    caller.ObligedServing storingContext [genesis] [hello, askState] (inboundSession none) := by
  obtain ⟨greeting, session, summary, last, hgreeting, hsummary, hlong, hlong'⟩ := caller_answered
  have hhello : hello.length - 12 = 68 := by rw [length_hello]
  have hask : askState.length - 12 = 0 := by decide
  have hheader : peerHeaderSize = 12 := rfl
  have hincoming : caller.incoming.length = 92 := by
    have hboth : caller.incoming.length = hello.length + askState.length := List.length_append
    rw [hboth, length_hello]
    rfl
  obtain ⟨h₁, hleft₁⟩ := caller_swift.receiveAll (by decide : 0 < 12) (by decide) (by omega)
  obtain ⟨h₂, hleft₂⟩ := h₁.receiveAll (by decide : 0 < 68) (by decide)
    (by rw [hleft₁, List.length_drop]; omega)
  obtain ⟨h₃, hleft₃⟩ := h₂.sendAll (by omega : 0 < greeting.length) (by omega)
  obtain ⟨h₄, -⟩ := h₃.receiveAll (by decide : 0 < 12) (by decide)
    (by rw [hleft₃, hleft₂, hleft₁, List.length_drop, List.length_drop]; omega)
  simp only [LinuxPeer.ObligedServing, hheader, hgreeting, hsummary, hhello, hask,
    LinuxPeer.receiveAll_zero, hlong, hlong', and_true]
  exact ⟨caller_swift.obliges _ (by decide), h₁.obliges _ (by decide), h₂.obliges _ (by decide),
    h₃.obliges _ (by decide), h₄.obliges _ (by decide), h₄.obliges _ (by decide)⟩

/-- The snapshot has the stored block. -/
theorem caller_snapshot {t : ChainState} (h : Accepts storingContext [genesis] t) :
    (inboundSnapshot storingContext memory (fun x => (x.getD []).length) [.read 64]
      (t, some (imageOf [genesis]))).1 = .ok [genesis] := by
  have hv := storageDecode_of_encode (by decide) h
    (storageEncode_imageOf h (by decide) (by decide +kernel))
  have hload : (storageLoad storingContext memory (imageOf [genesis]).length
      (some (imageOf [genesis]))).1 = .ok ⟨[genesis], t⟩ :=
    storageLoad_of_image rfl (by decide +kernel) le_rfl hv
  have hlong : 0 < (imageOf [genesis]).length := by decide +kernel
  have hprobe : memory.read 0 (some (imageOf [genesis])) =
      (.error .capacity, some (imageOf [genesis])) := by
    simp only [memory, if_pos hlong]
  have hacquire : memory.acquire (some (imageOf [genesis])) = (.ok (), some (imageOf [genesis])) :=
    rfl
  have huses : storageUses storingContext memory [.read 64]
      (t, memory.release (some (imageOf [genesis]))) = (t, some (imageOf [genesis])) := rfl
  have hneeded : ((some (imageOf [genesis])).getD []).length = (imageOf [genesis]).length := rfl
  simp only [inboundSnapshot, hacquire, hprobe, huses, hneeded, hlong.ne', ne_eq, not_false_eq_true,
    and_self, if_true, hload]
  rfl

/-- The run of the thread. -/
def callerThread (t : ChainState) : LinuxPeer × ChainState × Option Bytes :=
  inboundClientThread storingContext memory (fun x => (x.getD []).length) [.read 64] none 2 caller
    (t, some (imageOf [genesis]))

theorem caller_told {t : ChainState} (h : Accepts storingContext [genesis] t) :
    caller.sent ++ callerServed.1.flatten <+: (callerThread t).1.sent := by
  have htwo := callerServed_two
  rw [callerServed] at htwo ⊢
  rw [callerThread, inboundClientThread_loop (caller_snapshot h)]
  exact inboundLoop_answers caller_swift.connected caller_cuts Prod.mk.eta.symm htwo.symm le_rfl
    caller_obliged

end Sample

open Sample

/-- The greeting and the request are both answered. -/
theorem sample_inbound_thread_serves : ∃ t u requests responses sent,
    (miningFrom t).Coherent ⟨[genesis], t⟩ ∧
    (⟨[genesis], t⟩ : StorageView).Advances u ∧ Accepts storingContext u.blocks u.state ∧
    ServedFrom storingContext u.blocks none caller (callerThread t).1 requests responses sent ∧
    callerServed.1.length = 2 ∧
    caller.sent ++ callerServed.1.flatten <+: (callerThread t).1.sent := by
  obtain ⟨t, ht⟩ := miningFrom_coherent
  have haccepted : Accepts storingContext [genesis] t := by
    obtain ⟨image, -, hdecode⟩ := ht.stored
    exact (storageDecode_image hdecode).2.1
  obtain ⟨u, requests, responses, sent, -, hadvances, haccepts, hserved⟩ :=
    inbound_thread_serves (c := storingContext) (d := memory)
      (p := (t, some (imageOf [genesis]))) ht.stored rfl (fun x => (x.getD []).length)
      [.read 64] none 2 caller
  exact ⟨t, u, requests, responses, sent, ht, hadvances, haccepts, hserved, callerServed_two,
    caller_told haccepted⟩

theorem sample_inbound_thread_answers : ∃ t, Accepts storingContext [genesis] t ∧
    caller.sent ++ callerServed.1.flatten <+: (callerThread t).1.sent := by
  obtain ⟨t, ht, -⟩ := accepts_genesis
  have htwo := callerServed_two
  refine ⟨t, ht, ?_⟩
  rw [callerServed] at htwo ⊢
  rw [callerThread]
  exact inbound_thread_answers (caller_snapshot ht) caller_swift.connected caller_cuts htwo.symm
    le_rfl caller_obliged

end Sample

end StnChain
