import StnChain.Platform.LinuxPeer
import StnChain.Platform.Runtime
import StnChain.Support.Framing

/-!
# Clients of the running node

The thread of `platforms/linux/stn_app_linux.c` that serves an RPC client.  It cuts the octets of
its connection into requests, dispatches them in turn and sends the responses, while the other
threads take their turns and the system interrupts and splits its transfers.
`client_thread_serves` says that none of this is seen by the client: its requests are those that
its stream is cut into, each dispatched once and in order, and what it receives is the front of
their responses.  `client_thread_answers` says that it receives them all if the system obliges.
-/

namespace StnChain

open Framing

/-! ## Requests of a stream -/

/-- `stn_rpc_payload_length`. -/
def rpcPayloadLength (header : Bytes) : Except RpcCode ℕ :=
  if header.length ≠ rpcHeaderSize then .error .invalid
  else if wireRead header 20 4 > rpcMaxPayload then .error .capacity
  else .ok (wireRead header 20 4)

/-- What a thread still has to receive after a header that it does not refuse. -/
def rpcBodyLength (header : Bytes) : Option ℕ :=
  if header.take 4 ≠ [0x53, 0x54, 0x4e, 0x43] then none else (rpcPayloadLength header).toOption

/-- The frames of RPC. -/
def rpcFormat : Format UInt8 where
  header := rpcHeaderSize
  body := rpcBodyLength

/-- A message is one frame, whatever follows it. -/
theorem rpcFormat_next [Primitives] {frame : Bytes} {m : RpcMessage}
    (h : rpcDecode frame = .ok m) (rest : Bytes) :
    rpcFormat.next (frame ++ rest) = some (frame, rest) := by
  unfold rpcDecode at h
  split at h
  · cases h
  next hsize =>
  split at h
  · cases h
  next hmagic =>
  split at h
  · cases h
  split at h
  · cases h
  dsimp only at h
  split at h
  · cases h
  next hvalid =>
  have hheader : (frame.take rpcHeaderSize).length = rpcHeaderSize := by
    rw [List.length_take]
    omega
  have hdeclared : wireRead frame 20 4 = frame.length - rpcHeaderSize := by
    by_contra hne
    exact hvalid (.inl hne)
  have hread : wireRead (frame.take rpcHeaderSize) 20 4 = (frame.drop rpcHeaderSize).length := by
    rw [List.length_drop, ← hdeclared]
    conv_rhs => rw [← List.take_append_drop rpcHeaderSize frame]
    rw [wireRead_append_left (by rw [hheader]; decide)]
  have hfits : ¬(frame.drop rpcHeaderSize).length > rpcMaxPayload := by
    rw [List.length_drop]
    unfold rpcMaxFrame at hsize
    omega
  have htake : (frame.take rpcHeaderSize).take 4 = [0x53, 0x54, 0x4e, 0x43] := by
    rw [List.take_take]
    exact not_not.mp hmagic
  have hbody : rpcFormat.body (frame.take rpcHeaderSize) =
      some (frame.drop rpcHeaderSize).length := by
    simp only [rpcFormat, rpcBodyLength, rpcPayloadLength, htake, hheader, hread, if_neg hfits,
      ne_eq, not_true_eq_false, if_false]
    rfl
  have hnext := Format.next_of_parts (f := rpcFormat) hheader hbody rest
  rwa [List.take_append_drop] at hnext

/-! ## The thread of a client -/

section Thread

variable {σ : Type}

/-- The loop of `rpc_client_thread`, with so many rounds before it is told to stop.  A dispatch
gives a response, or none if it fails. -/
def rpcClientLoop (dispatch : Bytes → σ → Option Bytes × σ) :
    ℕ → LinuxPeer → σ → LinuxPeer × σ
  | 0, peer, x => (peer, x)
  | turns + 1, peer, x =>
      match peer.rpcTransfer (.receive rpcHeaderSize) true with
      | (.error .timeout, peer) => rpcClientLoop dispatch turns peer x
      | (.error _, peer) => (peer, x)
      | (.ok header, peer) =>
          match rpcBodyLength header with
          | none => (peer, x)
          | some length =>
              match peer.rpcTransfer (.receive length) false with
              | (.error _, peer) => (peer, x)
              | (.ok payload, peer) =>
                  match dispatch (header ++ payload) x with
                  | (none, x) => (peer, x)
                  | (some response, x) =>
                      match peer.rpcTransfer (.send response) false with
                      | (.error _, peer) => (peer, x)
                      | (.ok _, peer) => rpcClientLoop dispatch turns peer x

variable {dispatch : Bytes → σ → Option Bytes × σ} {peer next : LinuxPeer} {x : σ}

/-- What a transfer has received, and that it has sent nothing. -/
theorem LinuxPeer.rpcTransfer_receive {length : ℕ} {idle : Bool} {r : Except PeerStatus Bytes}
    (h : peer.rpcTransfer (.receive length) idle = (r, next)) :
    next.sent = peer.sent ∧ (r = .error .timeout → next.incoming = peer.incoming) ∧
      ∀ got, r = .ok got → got.length = length ∧ peer.incoming = got ++ next.incoming := by
  obtain ⟨part, heffect⟩ := LinuxPeer.rpcTransfer_effect h
  refine ⟨heffect.moves.sent.trans (List.append_nil _), fun hidle => ?_, fun got hok => ?_⟩
  · obtain ⟨-, hnothing⟩ := heffect.idle hidle
    rw [List.nil_append] at hnothing
    rw [heffect.moves.incoming, hnothing]
    rfl
  · obtain ⟨rfl, hlength⟩ := heffect.ok got hok
    exact ⟨hlength, heffect.moves.incoming⟩

/-- What a transfer has sent, and that it has received nothing. -/
theorem LinuxPeer.rpcTransfer_send {bytes : Bytes} {idle : Bool} {r : Except PeerStatus Bytes}
    (h : peer.rpcTransfer (.send bytes) idle = (r, next)) :
    next.incoming = peer.incoming ∧ (∃ part, part <+: bytes ∧ next.sent = peer.sent ++ part) ∧
      ∀ got, r = .ok got → next.sent = peer.sent ++ bytes := by
  obtain ⟨part, heffect⟩ := LinuxPeer.rpcTransfer_effect h
  have hfront : part <+: bytes := heffect.front bytes rfl List.nil_prefix
  refine ⟨heffect.moves.incoming.symm, ⟨part, hfront, heffect.moves.sent⟩, fun got hok => ?_⟩
  obtain ⟨hgot, hlength⟩ := heffect.ok got hok
  rw [hgot, List.nil_append] at hlength
  have hwhole : part = bytes := hfront.eq_of_length hlength
  rw [← hwhole]
  exact heffect.moves.sent

/-- The loop is a server of the octets that arrive. -/
theorem rpcClientLoop_serves (dispatch : Bytes → σ → Option Bytes × σ) (turns : ℕ)
    (peer : LinuxPeer) (x : σ) :
    ∃ part, (rpcClientLoop dispatch turns peer x).1.sent = peer.sent ++ part ∧
      Framing.Serves rpcFormat dispatch peer.incoming x part
        (rpcClientLoop dispatch turns peer x).2 := by
  have hstops {last : LinuxPeer} (x : σ) (hsent : last.sent = peer.sent) :
      ∃ part, last.sent = peer.sent ++ part ∧
        Framing.Serves rpcFormat dispatch peer.incoming x part x :=
    ⟨[], by rw [hsent, List.append_nil], .stopped peer.incoming x⟩
  induction turns generalizing peer x with
  | zero => exact hstops x rfl
  | succ turns ih =>
      unfold rpcClientLoop
      split
      · next first hfirst =>
          obtain ⟨hsent, hidle, -⟩ := LinuxPeer.rpcTransfer_receive hfirst
          have hrest := ih first x fun x hlast => ⟨[], by rw [hlast, List.append_nil], .stopped _ x⟩
          rw [hsent, hidle rfl] at hrest
          exact hrest
      · next hfirst => exact hstops x (LinuxPeer.rpcTransfer_receive hfirst).1
      next header first hfirst =>
      obtain ⟨hsent, -, hheader⟩ := LinuxPeer.rpcTransfer_receive hfirst
      obtain ⟨hsize, hincoming⟩ := hheader header rfl
      split
      · exact hstops x hsent
      next length hbody =>
      split
      · next hsecond => exact hstops x ((LinuxPeer.rpcTransfer_receive hsecond).1.trans hsent)
      next payload second hsecond =>
      obtain ⟨hsent', -, hpayload⟩ := LinuxPeer.rpcTransfer_receive hsecond
      obtain ⟨rfl, hincoming'⟩ := hpayload payload rfl
      have hnext : rpcFormat.next peer.incoming = some (header ++ payload, second.incoming) := by
        rw [hincoming, hincoming', ← List.append_assoc]
        exact Format.next_of_parts hsize hbody second.incoming
      have hkept : second.sent = peer.sent := hsent'.trans hsent
      split
      · next x' hdispatch =>
          exact ⟨[], by rw [hkept, List.append_nil], .refused hnext hdispatch⟩
      next response x' hdispatch =>
      split
      · next hthird =>
          obtain ⟨-, ⟨part, hpart, hlast⟩, -⟩ := LinuxPeer.rpcTransfer_send hthird
          exact ⟨part, by rw [hlast, hkept], .broken hnext hdispatch hpart⟩
      · next third hthird =>
          obtain ⟨hleft, -, hall⟩ := LinuxPeer.rpcTransfer_send hthird
          obtain ⟨part, hpart, hserves⟩ :=
            ih third x' fun x hlast => ⟨[], by rw [hlast, List.append_nil], .stopped _ x⟩
          rw [hleft] at hserves
          refine ⟨response ++ part, ?_, .served hnext hdispatch hserves⟩
          rw [hpart, hall _ rfl, hkept, List.append_assoc]

end Thread

/-! ## Systems that oblige -/

section Answered

variable {σ : Type} {dispatch : Bytes → σ → Option Bytes × σ} {peer : LinuxPeer} {x x' : σ}
  {requests responses : List Bytes} {rest : Bytes} {turns : ℕ}

/-- The system obliges the transfers of some requests and their responses, each before its own
deadline. -/
def LinuxPeer.ObligedFor (dispatch : Bytes → σ → Option Bytes × σ) :
    List Bytes → LinuxPeer → σ → Prop
  | [], _, _ => True
  | request :: requests, peer, x =>
      let header := SocketTransfer.receive rpcHeaderSize
      let payload := SocketTransfer.receive (request.length - rpcHeaderSize)
      let first := (peer.rpcTransfer header true).2
      let second := (first.rpcTransfer payload false).2
      peer.Obliged header true ∧ first.Obliged payload false ∧
        match dispatch request x with
        | (none, _) => True
        | (some response, y) => second.Obliged (.send response) false ∧
            ObligedFor dispatch requests (second.rpcTransfer (.send response) false).2 y

theorem LinuxPeer.Connected.receive (h : peer.Connected) {length : ℕ} {idle : Bool}
    (hlength : length ≤ peer.incoming.length) (hobliged : peer.Obliged (.receive length) idle) :
    ∃ next, peer.rpcTransfer (.receive length) idle = (.ok (peer.incoming.take length), next) ∧
      next.Connected ∧ next.incoming = peer.incoming.drop length ∧ next.sent = peer.sent := by
  have hoffers : peer.Offers [] (.receive length) := hlength
  obtain ⟨got, next, hdone, hconnected⟩ := h.rpcTransfer hoffers hobliged
  obtain ⟨hsent, -, hgot⟩ := LinuxPeer.rpcTransfer_receive hdone
  obtain ⟨hsize, hincoming⟩ := hgot got rfl
  refine ⟨next, ?_, hconnected, ?_, hsent⟩
  · rw [hdone, hincoming, List.take_left' hsize]
  · rw [hincoming, List.drop_left' hsize]

theorem LinuxPeer.Connected.send (h : peer.Connected) {bytes : Bytes} {idle : Bool}
    (hobliged : peer.Obliged (.send bytes) idle) :
    ∃ got next, peer.rpcTransfer (.send bytes) idle = (.ok got, next) ∧ next.Connected ∧
      next.incoming = peer.incoming ∧ next.sent = peer.sent ++ bytes := by
  have hoffers : peer.Offers [] (.send bytes) := trivial
  obtain ⟨got, next, hdone, hconnected⟩ := h.rpcTransfer hoffers hobliged
  obtain ⟨hincoming, -, hsent⟩ := LinuxPeer.rpcTransfer_send hdone
  exact ⟨got, next, hdone, hconnected, hincoming, hsent got rfl⟩

/-- The two transfers of a request bring the frame at the front of the stream, if the system
obliges them. -/
theorem LinuxPeer.Connected.receiveRequest (h : peer.Connected) {frame rest : Bytes}
    (hnext : rpcFormat.next peer.incoming = some (frame, rest))
    (hheader : peer.Obliged (.receive rpcHeaderSize) true)
    (hpayload : (peer.rpcTransfer (.receive rpcHeaderSize) true).2.Obliged
      (.receive (frame.length - rpcHeaderSize)) false) :
    ∃ header payload first second,
      peer.rpcTransfer (.receive rpcHeaderSize) true = (.ok header, first) ∧
      rpcBodyLength header = some (frame.length - rpcHeaderSize) ∧
      first.rpcTransfer (.receive (frame.length - rpcHeaderSize)) false =
        (.ok payload, second) ∧
      header ++ payload = frame ∧ second.Connected ∧ second.incoming = rest ∧
      second.sent = peer.sent := by
  obtain ⟨hlong, hbody, hbound, hframe, hrest⟩ := Format.parts_of_next hnext
  have hsize : rpcFormat.header = rpcHeaderSize := rfl
  rw [hsize] at hlong hbody hbound hframe hrest
  obtain ⟨first, hfirst, hconnected₁, hincoming₁, hsent₁⟩ := h.receive hlong hheader
  rw [hfirst] at hpayload
  have havailable : frame.length - rpcHeaderSize ≤ first.incoming.length := hincoming₁ ▸ hbound
  obtain ⟨second, hsecond, hconnected₂, hincoming₂, hsent₂⟩ :=
    hconnected₁.receive havailable hpayload
  refine ⟨_, _, first, second, hfirst, hbody, hsecond, ?_, hconnected₂, ?_, hsent₂.trans hsent₁⟩
  · rw [hincoming₁]
    exact hframe
  · rw [hincoming₂, hincoming₁]
    exact hrest

/-- If the system obliges, the thread answers the requests at the front of its stream. -/
theorem rpcClientLoop_answers (hconnected : peer.Connected)
    (hcuts : Cuts rpcFormat peer.incoming requests rest)
    (hanswers : answers dispatch requests x = (responses, x'))
    (hall : requests.length = responses.length) (hturns : requests.length ≤ turns)
    (hobliged : peer.ObligedFor dispatch requests x) :
    peer.sent ++ responses.flatten <+: (rpcClientLoop dispatch turns peer x).1.sent := by
  generalize hstream : peer.incoming = stream at hcuts
  induction hcuts generalizing peer x responses turns with
  | nil stream =>
      obtain rfl := List.eq_nil_of_length_eq_zero hall.symm
      obtain ⟨part, hpart, -⟩ := rpcClientLoop_serves dispatch turns peer x
      rw [hpart, List.flatten_nil, List.append_nil]
      exact List.prefix_append _ _
  | @cons stream frame tail last requests hnext hrest ih =>
      subst hstream
      cases turns with
      | zero => exact absurd hturns (by simp)
      | succ turns =>
      obtain ⟨response, y, later, hdispatch, hlater, rfl, hall'⟩ := answers_cons hanswers hall
      unfold LinuxPeer.ObligedFor at hobliged
      simp only [hdispatch] at hobliged
      obtain ⟨hobliged₁, hobliged₂, hobliged₃, hobliged'⟩ := hobliged
      obtain ⟨header, payload, first, second, hfirst, hbody, hsecond, hframe, hconnected₁,
        hincoming₁, hsent₁⟩ := hconnected.receiveRequest hnext hobliged₁ hobliged₂
      simp only [hfirst, hsecond] at hobliged₃ hobliged'
      obtain ⟨got, third, hthird, hconnected₂, hincoming₂, hsent₂⟩ := hconnected₁.send hobliged₃
      simp only [hthird] at hobliged'
      rw [List.length_cons] at hturns
      have hserved := ih hconnected₂ hlater hall' (Nat.le_of_succ_le_succ hturns) hobliged'
        (hincoming₂.trans hincoming₁)
      simp only [rpcClientLoop, hfirst, hbody, hsecond, hframe, hdispatch, hthird]
      rw [hsent₂, hsent₁, List.append_assoc] at hserved
      exact hserved

end Answered

/-! ## A client among the other threads -/

section

variable [Primitives]

/-- What goes on while a client waits for the dispatch lock: the turns of other threads, and
what its response buffer holds then. -/
structure Meanwhile (ι τ : Type) where
  events : List (RuntimeEvent ι τ)
  response : FrameBuffer

/-- A running node, and what will go on before each time that a client takes the lock. -/
structure SharedRuntime (ι σ τ : Type) where
  runtime : Runtime ι σ
  meanwhile : ℕ → Meanwhile ι τ

variable {ι σ τ : Type} [DecidableEq ι]

/-- A request of a client, dispatched when the lock is free. -/
def dispatchMeanwhile (i : ι) (request : Bytes) (x : SharedRuntime ι σ τ) :
    Option Bytes × SharedRuntime ι σ τ :=
  let before := (x.runtime.run (x.meanwhile 0).events).1
  let (next, sent) := before.turn (.request i request (x.meanwhile 0).response : RuntimeEvent ι τ)
  (sent, ⟨next, fun k => x.meanwhile (k + 1)⟩)

/-- `rpc_client_thread`, which ends its session when it ends. -/
def rpcClientThread (i : ι) (turns : ℕ) (peer : LinuxPeer) (x : SharedRuntime ι σ τ) :
    LinuxPeer × Runtime ι σ :=
  let (peer, x) := rpcClientLoop (dispatchMeanwhile i) turns peer x
  let before := (x.runtime.run (x.meanwhile 0).events).1
  (peer, (before.turn (.closed i : RuntimeEvent ι τ)).1)

/-- The turns of all threads up to the last of some requests of a client. -/
def requestEvents (i : ι) : (ℕ → Meanwhile ι τ) → List Bytes → List (RuntimeEvent ι τ)
  | _, [] => []
  | meanwhile, request :: rest =>
      (meanwhile 0).events ++ .request i request (meanwhile 0).response ::
        requestEvents i (fun k => meanwhile (k + 1)) rest

/-- The turns of all threads up to the end of a client that has made some requests. -/
def clientEvents (i : ι) (meanwhile : ℕ → Meanwhile ι τ) (requests : List Bytes) :
    List (RuntimeEvent ι τ) :=
  requestEvents i meanwhile requests ++ ((meanwhile requests.length).events ++ [.closed i])

variable {i : ι} {r : Runtime ι σ} {x x' : SharedRuntime ι σ τ} {requests responses : List Bytes}
  {v p : StorageView}

theorem Runtime.run_append (r : Runtime ι σ) (events later : List (RuntimeEvent ι τ)) :
    r.run (events ++ later) =
      (((r.run events).1.run later).1, (r.run events).2 ++ ((r.run events).1.run later).2) := by
  induction events generalizing r with
  | nil => rfl
  | cons event rest ih =>
      have hrest := ih (r.turn event).1
      simp only [List.cons_append, Runtime.run, hrest, List.append_assoc]

/-- The responses of a client are among what the node sends in the turns of all threads. -/
theorem answers_run (h : answers (dispatchMeanwhile i) requests x = (responses, x'))
    (hlength : requests.length ≤ responses.length + 1) :
    (x.runtime.run (requestEvents i x.meanwhile requests)).1 = x'.runtime ∧
      responses.Sublist (x.runtime.run (requestEvents i x.meanwhile requests)).2 ∧
      x'.meanwhile = fun k => x.meanwhile (k + requests.length) := by
  induction requests generalizing x responses with
  | nil =>
      obtain ⟨rfl, rfl⟩ := Prod.mk.inj h
      exact ⟨rfl, List.Sublist.refl [], rfl⟩
  | cons request rest ih =>
      simp only [requestEvents, Runtime.run_append, Runtime.run]
      unfold answers at h
      rcases hdispatch : dispatchMeanwhile i request x with ⟨sent, y⟩
      rw [hdispatch] at h
      have hsent : ((x.runtime.run (x.meanwhile 0).events).1.turn
          (.request i request (x.meanwhile 0).response : RuntimeEvent ι τ)).2 = sent :=
        congrArg Prod.fst hdispatch
      have hnext : ((x.runtime.run (x.meanwhile 0).events).1.turn
          (.request i request (x.meanwhile 0).response : RuntimeEvent ι τ)).1 = y.runtime :=
        congrArg (fun d => d.2.runtime) hdispatch
      have hlater : (fun k => x.meanwhile (k + 1)) = y.meanwhile :=
        congrArg (fun d => d.2.meanwhile) hdispatch
      rw [hsent, hnext, hlater]
      cases sent with
      | none =>
          obtain ⟨rfl, rfl⟩ := Prod.mk.inj h
          -- Only the last request can have been refused.
          have hnil : rest = [] := by
            apply List.eq_nil_of_length_eq_zero
            simpa using hlength
          subst hnil
          refine ⟨rfl, List.nil_sublist _, ?_⟩
          rw [← hlater]
          rfl
      | some response =>
          dsimp only at h
          generalize hrest : answers (dispatchMeanwhile i) rest y = later at h
          obtain ⟨others, z⟩ := later
          obtain ⟨rfl, rfl⟩ := Prod.mk.inj h
          obtain ⟨hrun, hsublist, hmeanwhile⟩ := ih hrest (Nat.le_of_succ_le_succ hlength)
          refine ⟨hrun, ?_, ?_⟩
          · exact List.sublist_append_of_sublist_right (hsublist.cons_cons response)
          · rw [hmeanwhile, ← hlater]
            rfl

/-- A response that is sent is a message. -/
theorem rpcDispatch_frame {request memory : Bytes} {allowed : UInt32} {service : Option RpcHandler}
    {capacity : ℕ} (h : (rpcDispatch request allowed service memory capacity).code = .ok) :
    ∃ m, rpcDecode ((rpcDispatch request allowed service memory capacity).memory.take
      (rpcDispatch request allowed service memory capacity).written) = .ok m := by
  unfold rpcDispatch at h ⊢
  split at h
  · cases h
  next hroom =>
  rw [if_neg hroom]
  cases hdecode : rpcDecode request with
  | error code =>
      simp only [hdecode] at h
      exact ⟨_, rpcRespond_read h⟩
  | ok q =>
      simp only [hdecode] at h ⊢
      split at h
      · next hkind =>
          rw [if_pos hkind]
          exact ⟨_, rpcRespond_read h⟩
      next hkind =>
      rw [if_neg hkind]
      split at h
      · next hmethod =>
          rw [if_pos hmethod]
          exact ⟨_, rpcRespond_read h⟩
      next hmethod =>
      rw [if_neg hmethod]
      split at h
      · next hallowed =>
          rw [if_pos hallowed]
          exact ⟨_, rpcRespond_read h⟩
      next hallowed =>
      rw [if_neg hallowed]
      cases service with
      | none => exact ⟨_, rpcRespond_read h⟩
      | some handle => exact ⟨_, rpcRespond_read h⟩

theorem dispatchRequest_outcome (r : Runtime ι σ) (i : ι) (request : Bytes)
    (response : FrameBuffer) : ∃ service, (dispatchRequest r i request response).1 =
      rpcDispatch request clientPermissions (some service) response.1 rpcMaxFrame := by
  by_cases hcached : rpcCached request = true
  · exact ⟨cachedInfoHandle r.info, by rw [dispatchRequest, if_pos hcached]⟩
  · refine ⟨fun q memory capacity =>
      (miningSessionHandle r.service (r.stages i) q memory capacity).1, ?_⟩
    simp only [dispatchRequest, if_neg hcached]
    split
    · rfl
    · rfl

theorem Runtime.turn_frame {event : RuntimeEvent ι τ} {frame : Bytes}
    (h : (r.turn event).2 = some frame) : ∃ m, rpcDecode frame = .ok m := by
  cases event with
  | request i request response =>
      obtain ⟨service, houtcome⟩ := dispatchRequest_outcome r i request response
      simp only [Runtime.turn, houtcome] at h
      split at h
      · next hok =>
          rw [← Option.some.inj h]
          exact rpcDispatch_frame hok
      · cases h
  | closed i => cases h
  | synchronize input => cases h
  | mine memory response =>
      simp only [Runtime.turn] at h
      split at h
      · cases h
      · cases h

/-- The responses are frames, so that a client can tell them apart. -/
theorem answers_cut (h : answers (dispatchMeanwhile i) requests x = (responses, x')) :
    Cuts rpcFormat responses.flatten responses [] := by
  induction requests generalizing x responses with
  | nil =>
      obtain ⟨rfl, -⟩ := Prod.mk.inj h
      exact .nil []
  | cons request rest ih =>
      unfold answers at h
      rcases hdispatch : dispatchMeanwhile i request x with ⟨sent, y⟩
      rw [hdispatch] at h
      cases sent with
      | none =>
          obtain ⟨rfl, -⟩ := Prod.mk.inj h
          exact .nil []
      | some response =>
          dsimp only at h
          rcases hrest : answers (dispatchMeanwhile i) rest y with ⟨others, z⟩
          rw [hrest] at h
          obtain ⟨rfl, rfl⟩ := Prod.mk.inj h
          have hsent : ((x.runtime.run (x.meanwhile 0).events).1.turn
              (.request i request (x.meanwhile 0).response : RuntimeEvent ι τ)).2 = some response :=
            congrArg Prod.fst hdispatch
          obtain ⟨m, hm⟩ := Runtime.turn_frame hsent
          rw [List.flatten_cons]
          exact .cons (rpcFormat_next hm _) (ih hrest)

end

section

variable [Primitives] {ι σ τ : Type} [DecidableEq ι] {i : ι} {r : Runtime ι σ} {v : StorageView}

/-- Whatever the system answers and whatever the other threads do: the thread of a client
dispatches the requests that the octets of its connection are cut into, each once and in their
order, as turns among those of the other threads.  What it sends is the front of the responses,
with all but the last, and only they can be cut out of it again.  The works that they report
never decrease. -/
theorem client_thread_serves (h : r.service.Coherent v) (hinfo : r.info = publishInfo v.state)
    (turns : ℕ) (peer : LinuxPeer) (meanwhile : ℕ → Meanwhile ι τ) :
    let ended := rpcClientThread i turns peer ⟨r, meanwhile⟩
    ∃ requests rest responses sent,
      Cuts rpcFormat peer.incoming requests rest ∧
      (answers (dispatchMeanwhile i) requests ⟨r, meanwhile⟩).1 = responses ∧
      ended.2 = (r.run (clientEvents i meanwhile requests)).1 ∧
      responses.Sublist (r.run (clientEvents i meanwhile requests)).2 ∧
      ended.1.sent = peer.sent ++ sent ∧ sent <+: responses.flatten ∧
      responses.dropLast.flatten <+: sent ∧ requests.length ≤ responses.length + 1 ∧
      Cuts rpcFormat responses.flatten responses [] ∧
      (∀ frames last, Cuts rpcFormat sent frames last → frames <+: responses) ∧
      (reportedWorks responses).Pairwise (· ≤ ·) ∧
      ∃ v', ended.2.service.Coherent v' ∧ v.Advances v' := by
  intro ended
  obtain ⟨sent, hsent, hserves⟩ :=
    rpcClientLoop_serves (dispatchMeanwhile i) turns peer ⟨r, meanwhile⟩
  obtain ⟨requests, rest, responses, hcuts, hanswers, hfront, hall, hlength⟩ := hserves.spec
  obtain ⟨hrun, hsublist, hmeanwhile⟩ := answers_run hanswers hlength
  have hlast : ended.2 = (r.run (clientEvents i meanwhile requests)).1 := by
    have hwaiting : (rpcClientLoop (dispatchMeanwhile i) turns peer ⟨r, meanwhile⟩).2.meanwhile 0 =
        meanwhile requests.length :=
      (congrFun hmeanwhile 0).trans (congrArg meanwhile (Nat.zero_add _))
    rw [clientEvents, Runtime.run_append, Runtime.run_append, hrun, ← hwaiting]
    rfl
  have hsublist' : responses.Sublist (r.run (clientEvents i meanwhile requests)).2 := by
    rw [clientEvents, Runtime.run_append]
    exact List.sublist_append_of_sublist_left hsublist
  have hsound : r.Sound v v := ⟨h, h.accepted, hinfo, .inl rfl⟩
  obtain ⟨p', v', heffect⟩ := hsound.run (clientEvents i meanwhile requests)
  have hframes := answers_cut hanswers
  have hread : ∀ frames last, Cuts rpcFormat sent frames last → frames <+: responses :=
    fun _ _ hcut => hframes.front (by decide) rfl hfront hcut
  refine ⟨requests, rest, responses, sent, hcuts, by rw [hanswers], hlast, hsublist', hsent, hfront,
    hall, hlength, hframes, hread, ?_, v', hlast ▸ heffect.sound.coherent, heffect.stored⟩
  exact heffect.ordered.sublist (hsublist'.filterMap reportedWork)

/-- If every call moves something before the deadline of its transfer, a client receives the
responses to all of its requests that none of the dispatches refuses. -/
theorem client_thread_answers {turns : ℕ} {peer : LinuxPeer} {x : SharedRuntime ι σ τ}
    {requests : List Bytes} {rest : Bytes} (hconnected : peer.Connected)
    (hcuts : Cuts rpcFormat peer.incoming requests rest)
    (hall : requests.length = (answers (dispatchMeanwhile i) requests x).1.length)
    (hturns : requests.length ≤ turns)
    (hobliged : peer.ObligedFor (dispatchMeanwhile i) requests x) :
    peer.sent ++ (answers (dispatchMeanwhile i) requests x).1.flatten <+:
      (rpcClientThread i turns peer x).1.sent :=
  rpcClientLoop_answers hconnected hcuts rfl hall hturns hobliged

end

/-! ## Samples -/

section

variable [Primitives] {ι σ τ : Type} [DecidableEq ι] {x : SharedRuntime ι σ τ}

/-- A request for INFO. -/
def infoRequest (requestId : UInt64) : RpcMessage := ⟨1, 1, .ok, requestId, []⟩

/-- The response to it. -/
def infoResponse (requestId : UInt64) (payload : Bytes) : RpcMessage :=
  ⟨2, 1, .ok, requestId, payload⟩

/-- A request for INFO is answered with what was published last, and changes nothing. -/
theorem dispatchMeanwhile_info (i : ι) {requestId : UInt64} {request : Bytes}
    (hrequest : rpcDecode request = .ok (infoRequest requestId))
    (hinfo : (x.runtime.run (x.meanwhile 0).events).1.info = x.runtime.info)
    (hok : x.runtime.info.status = .ok)
    (hsize : x.runtime.info.payload.length = infoPayloadSize) :
    dispatchMeanwhile i request x =
      (some (rpcHeaderBytes (infoResponse requestId x.runtime.info.payload) ++
          x.runtime.info.payload),
        ⟨(x.runtime.run (x.meanwhile 0).events).1, fun k => x.meanwhile (k + 1)⟩) := by
  have hcached : rpcCached request = true := by
    simp only [rpcCached, hrequest]
    rfl
  have hroom : ¬rpcMaxFrame < rpcHeaderSize := by decide
  have hcapacity : ¬min (rpcMaxFrame - rpcHeaderSize) rpcMaxPayload < infoPayloadSize := by decide
  have hshape : responseShape 1 x.runtime.info.payload = true := decide_eq_true hsize
  have hfits : x.runtime.info.payload.length ≤ rpcMaxPayload := by
    rw [hsize]
    decide
  have hvalid : messageValid (infoResponse requestId x.runtime.info.payload) = true := by
    simp [messageValid, infoResponse, exclusiveCode, RpcCode.toWire, hshape, hfits]
  have hfull : ¬(rpcMaxFrame < rpcHeaderSize ∨
      x.runtime.info.payload.length > rpcMaxFrame - rpcHeaderSize) := by
    rw [hsize]
    decide
  have hencode : rpcEncode (infoResponse requestId x.runtime.info.payload) rpcMaxFrame =
      .ok (rpcHeaderBytes (infoResponse requestId x.runtime.info.payload) ++
        x.runtime.info.payload) := by
    simp only [rpcEncode, hvalid, Bool.not_true, Bool.false_eq_true, if_false]
    exact if_neg hfull
  have hmethod : (infoRequest requestId).methodOf = some .info := rfl
  -- The handler copies what was published, and the dispatcher passes it on.
  have hanswer (memory : Bytes) : rpcAnswer (infoRequest requestId)
      (min (rpcMaxFrame - rpcHeaderSize) rpcMaxPayload)
      ⟨some .ok, Buffer.overwrite memory 0 x.runtime.info.payload, infoPayloadSize⟩ =
        infoResponse requestId x.runtime.info.payload := by
    have htake : (Buffer.overwrite memory 0 x.runtime.info.payload).take infoPayloadSize =
        x.runtime.info.payload := by
      rw [← hsize]
      exact Buffer.take_overwrite_zero _ _
    have haccepted : replyRefused (infoRequest requestId).method
        (min (rpcMaxFrame - rpcHeaderSize) rpcMaxPayload)
        ⟨some .ok, Buffer.overwrite memory 0 x.runtime.info.payload, infoPayloadSize⟩ = false := by
      simp only [replyRefused, infoRequest, htake, hshape, hcapacity]
      rfl
    simp only [rpcAnswer, haccepted, Bool.false_eq_true, if_false, Option.getD_some,
      RpcCode.carriesPayload, if_true, htake]
    rfl
  have hkind : ¬(infoRequest requestId).kind ≠ 1 := by simp [infoRequest]
  have hcapability : ¬capability (infoRequest requestId).method = 0 := by
    change ¬rpcRead = 0
    decide
  have hallowed : ¬(clientPermissions &&& ~~~7 ≠ 0 ∨
      clientPermissions &&& capability (infoRequest requestId).method = 0) := by
    change ¬(clientPermissions &&& ~~~7 ≠ 0 ∨ clientPermissions &&& rpcRead = 0)
    decide
  simp only [dispatchMeanwhile, Runtime.turn, dispatchRequest, hcached, if_true, rpcDispatch,
    if_neg hroom, hrequest, if_neg hkind, if_neg hcapability, if_neg hallowed, cachedInfoHandle,
    hmethod, if_neg hcapacity, hinfo, hok, hanswer, rpcRespond, hencode,
    Buffer.take_overwrite_zero]

end

section Sample

attribute [local instance] Sample.storing

namespace Sample

/-- A request for INFO. -/
def ask : Bytes := rpcHeaderBytes (infoRequest 7)

/-- The response to it. -/
def told (active : ChainState) : Bytes :=
  rpcHeaderBytes (infoResponse 7 (infoPayload active)) ++ infoPayload active

/-- The rounds in which a request and its response go through, from a time on. -/
def session (clock : ℕ) : List PeerRound :=
  [⟨clock, .ready, .moved 0⟩, ⟨clock + 1, .ready, .moved 24⟩, ⟨clock + 2, .ready, .moved 0⟩,
    ⟨clock + 3, .ready, .moved 0⟩, ⟨clock + 4, .ready, .moved 208⟩]

/-- A connection over which INFO is asked for twice, more than a minute apart. -/
def infoClient : LinuxPeer :=
  ⟨true, 1, 0, session 1 ++ (session 100000 ++ List.replicate 208 ⟨200000, .ready, .moved 1⟩),
    ask ++ ask, []⟩

/-- The miner takes a step before each request. -/
def mined : ℕ → Meanwhile Bool Bytes :=
  fun _ => ⟨[.mine [] []], zeroFrame⟩

theorem ask_decoded : rpcDecode ask = .ok (infoRequest 7) := by
  decide

theorem infoClient_cuts : Cuts rpcFormat infoClient.incoming [ask, ask] [] := by
  have hfirst : rpcFormat.next infoClient.incoming = some (ask, ask) := by decide
  have hsecond : rpcFormat.next ask = some (ask, []) := by decide
  exact .cons hfirst (.cons hsecond (.nil []))

/-- A node that has published its history. -/
theorem miningFrom_published : ∃ t, (miningFrom t).Coherent ⟨[genesis], t⟩ ∧
    publishInfo t = ⟨infoPayload t, .ok, some t.contracts⟩ := by
  obtain ⟨t, ht, hpublished⟩ := accepts_of_any storingContext [genesis]
    (fun t => t.hasTip && t.height == 0) (by decide +kernel)
  have hv := storageDecode_of_encode (by decide) ht
    (storageEncode_imageOf ht (by decide) (by decide +kernel))
  obtain ⟨htip, hheight⟩ := Bool.and_eq_true_iff.mp hpublished
  have hlow : ¬t.height.toNat ≥ 2 ^ 32 - 1 := by
    rw [eq_of_beq hheight]
    decide
  refine ⟨t, ⟨⟨imageOf [genesis], rfl, hv⟩, rfl⟩, ?_⟩
  simp only [publishInfo, htip, Bool.not_true, Bool.false_eq_true, if_false, if_true, if_neg hlow]

theorem length_infoPayload (active : ChainState) :
    (infoPayload active).length = infoPayloadSize := by
  simp [infoPayload, infoPayloadSize]

/-- The miner's step leaves what is published. -/
theorem mined_info (r : Runtime Bool (Option Bytes)) (k : ℕ) :
    (r.run (mined k).events).1.info = r.info := by
  simp only [mined, Runtime.run, Runtime.turn]
  split
  · rfl
  · rfl

/-- A node that has published the history of a state. -/
def HasPublished (r : Runtime Bool (Option Bytes)) (active : ChainState) : Prop :=
  r.info = ⟨infoPayload active, .ok, some active.contracts⟩

theorem dispatch_ask {r : Runtime Bool (Option Bytes)} {active : ChainState}
    (h : HasPublished r active) : dispatchMeanwhile false ask ⟨r, mined⟩ =
      (some (told active), ⟨(r.run (mined 0).events).1, mined⟩) := by
  have hok : r.info.status = .ok := by rw [h]
  have hpayload : r.info.payload = infoPayload active := by rw [h]
  have hsize : r.info.payload.length = infoPayloadSize := by
    rw [hpayload, length_infoPayload]
  have hdone := dispatchMeanwhile_info (x := ⟨r, mined⟩) false ask_decoded (mined_info r 0)
    hok hsize
  rw [hpayload] at hdone
  exact hdone

theorem HasPublished.mined {r : Runtime Bool (Option Bytes)} {active : ChainState}
    (h : HasPublished r active) : HasPublished (r.run (mined 0).events).1 active :=
  (mined_info r 0).trans h

theorem answers_asked {r : Runtime Bool (Option Bytes)} {active : ChainState}
    (h : HasPublished r active) :
    (answers (dispatchMeanwhile false) [ask, ask] ⟨r, mined⟩).1 = [told active, told active] := by
  simp only [answers, dispatch_ask h, dispatch_ask h.mined]

theorem length_ask : ask.length = 24 := by
  decide

theorem length_told (active : ChainState) : (told active).length = 208 := by
  rw [told, List.length_append, length_rpcHeaderBytes, length_infoPayload]
  rfl

/-- The rounds of a session oblige a request and its response. -/
theorem session_obliges {peer : LinuxPeer} {clock : ℕ} {rest : List PeerRound} (response : Bytes)
    (hconnected : peer.Connected) (hrounds : peer.rounds = session (clock + 1) ++ rest)
    (hrest : 208 ≤ rest.length) (hincoming : 24 ≤ peer.incoming.length)
    (hresponse : response.length = 208) :
    ∃ first second third, peer.Obliged (.receive 24) true ∧
      peer.rpcTransfer (.receive 24) true = (.ok (peer.incoming.take 24), first) ∧
      first.Obliged (.receive 0) false ∧
      (first.rpcTransfer (.receive 0) false).2 = second ∧
      second.Obliged (.send response) false ∧
      (second.rpcTransfer (.send response) false).2 = third ∧ third.Connected ∧
      third.rounds = rest ∧ third.incoming = peer.incoming.drop 24 := by
  have hround (start k octets : ℕ) (hstart : clock + 1 ≤ start) (hk : start + k < clock + 60001) :
      PeerRound.Obliges (start + rpcIoTimeout) ⟨start + k, .ready, .moved (octets + 1)⟩ :=
    ⟨.inr ⟨by simp; omega, by simp [rpcIoTimeout]; omega⟩, rfl, octets, rfl⟩
  have hsend := hround (clock + 4) 1 207 (by omega) (by omega)
  obtain ⟨hobliged₁, hrounds₁⟩ : peer.Obliged (.receive 24) true ∧
      (peer.rpcTransfer (.receive 24) true).2.rounds = ⟨clock + 3, .ready, .moved 0⟩ ::
        ⟨clock + 4, .ready, .moved 0⟩ :: ⟨clock + 5, .ready, .moved 208⟩ :: rest :=
    hconnected.transfer_once hrounds (Nat.succ_ne_zero clock)
      (hround (clock + 1) 1 23 le_rfl (by omega)) rfl (by decide) le_rfl (by decide)
      (by simp [SocketTransfer.length]; omega) hincoming
  obtain ⟨first, hfirst, hconnected₁, hincoming₁, -⟩ := hconnected.receive hincoming hobliged₁
  rw [hfirst] at hrounds₁
  obtain ⟨hobliged₂, hrounds₂⟩ : first.Obliged (.receive 0) false ∧
      (first.rpcTransfer (.receive 0) false).2.rounds = ⟨clock + 4, .ready, .moved 0⟩ ::
        ⟨clock + 5, .ready, .moved 208⟩ :: rest :=
    LinuxPeer.transfer_nothing hrounds₁ (by simp) rfl
  obtain ⟨second, hsecond, hconnected₂, hincoming₂, -⟩ :=
    hconnected₁.receive (Nat.zero_le _) hobliged₂
  rw [hsecond] at hrounds₂
  obtain ⟨hobliged₃, hrounds₃⟩ : second.Obliged (.send response) false ∧
      (second.rpcTransfer (.send response) false).2.rounds = rest :=
    hconnected₂.transfer_once hrounds₂ (by simp) hsend rfl
      (by simp [SocketTransfer.length, hresponse]) (by simp [SocketTransfer.length, hresponse])
      (by simp [SocketTransfer.length, hresponse, transferChunk])
      (by simp [SocketTransfer.length, hresponse]; omega) trivial
  obtain ⟨got, third, hthird, hconnected₃, hincoming₃, -⟩ := hconnected₂.send hobliged₃
  rw [hthird] at hrounds₃
  refine ⟨first, second, third, hobliged₁, hfirst, hobliged₂, by rw [hsecond], hobliged₃,
    by rw [hthird], hconnected₃, hrounds₃, ?_⟩
  rw [hincoming₃, hincoming₂, hincoming₁, List.drop_zero]

theorem infoClient_connected : infoClient.Connected :=
  ⟨rfl, by decide⟩

/-- Each transfer of the two sessions ends in time, though they are more than a minute apart. -/
theorem infoClient_obliged {r : Runtime Bool (Option Bytes)} {active : ChainState}
    (h : HasPublished r active) :
    infoClient.ObligedFor (dispatchMeanwhile false) [ask, ask] ⟨r, mined⟩ := by
  have hpayload : ask.length - 24 = 0 := by rw [length_ask]
  have hlast : 208 ≤ (List.replicate 208 (⟨200000, .ready, .moved 1⟩ : PeerRound)).length :=
    List.length_replicate.ge
  have hlong : 208 ≤ (session 100000 ++
      List.replicate 208 (⟨200000, .ready, .moved 1⟩ : PeerRound)).length := by
    rw [List.length_append]
    exact Nat.le_add_left_of_le hlast
  obtain ⟨first, second, third, hobliged₁, hfirst, hobliged₂, hsecond, hobliged₃, hthird,
    hconnected, hrounds, hincoming⟩ := session_obliges (told active) infoClient_connected rfl hlong
      (by decide) (length_told active)
  obtain ⟨first', second', third', hobliged₁', hfirst', hobliged₂', hsecond', hobliged₃', -⟩ :=
    session_obliges (told active) hconnected hrounds hlast (by rw [hincoming]; decide)
      (length_told active)
  have hheader : rpcHeaderSize = 24 := rfl
  simp only [LinuxPeer.ObligedFor, hpayload, hheader, dispatch_ask h, dispatch_ask h.mined, hfirst,
    hsecond, hthird, hfirst', hsecond', hobliged₁, hobliged₂, hobliged₃, hobliged₁', hobliged₂',
    hobliged₃', and_self]

theorem infoClient_told {t : ChainState} (h : HasPublished (runningFrom t) t) :
    told t ++ told t <+: (rpcClientThread false 2 infoClient ⟨runningFrom t, mined⟩).1.sent := by
  have hanswers := answers_asked h
  have hserved : infoClient.sent ++ [told t, told t].flatten <+:
      (rpcClientThread false 2 infoClient ⟨runningFrom t, mined⟩).1.sent :=
    rpcClientLoop_answers infoClient_connected infoClient_cuts
      (Prod.ext hanswers rfl : answers (dispatchMeanwhile false) [ask, ask] _ = (_, _))
      rfl le_rfl (infoClient_obliged h)
  simpa [infoClient] using hserved

end Sample

open Sample

theorem sample_client_thread_serves : ∃ t requests sent, (miningFrom t).Coherent ⟨[genesis], t⟩ ∧
    (rpcClientThread false 2 infoClient ⟨runningFrom t, mined⟩).2 =
      ((runningFrom t).run (clientEvents false mined requests)).1 ∧
    (rpcClientThread false 2 infoClient ⟨runningFrom t, mined⟩).1.sent = sent ∧
    told t ++ told t <+: sent ∧
    sent <+: (answers (dispatchMeanwhile false) requests ⟨runningFrom t, mined⟩).1.flatten := by
  obtain ⟨t, ht, hpublished⟩ := miningFrom_published
  obtain ⟨requests, rest, responses, sent, -, rfl, hlast, -, hsent, hfront, -⟩ :=
    client_thread_serves (i := false) (r := runningFrom t) ht rfl 2 infoClient mined
  have hsent : (rpcClientThread false 2 infoClient ⟨runningFrom t, mined⟩).1.sent = sent := hsent
  exact ⟨t, requests, sent, ht, hlast, hsent, hsent ▸ infoClient_told hpublished, hfront⟩

/-- Both requests are answered. -/
theorem sample_client_thread_answers : ∃ t, (miningFrom t).Coherent ⟨[genesis], t⟩ ∧
    told t ++ told t <+: (rpcClientThread false 2 infoClient ⟨runningFrom t, mined⟩).1.sent := by
  obtain ⟨t, ht, hpublished⟩ := miningFrom_published
  have hpublishes : HasPublished (runningFrom t) t := hpublished
  have hanswers := answers_asked hpublishes
  have hserved := client_thread_answers (i := false) (x := ⟨runningFrom t, mined⟩)
    infoClient_connected infoClient_cuts (by rw [hanswers]; rfl) le_rfl
    (infoClient_obliged hpublishes)
  rw [hanswers] at hserved
  exact ⟨t, ht, by simpa [infoClient] using hserved⟩

end Sample

end StnChain
