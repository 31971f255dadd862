import StnChain.Peer.Sync

/-!
# Connections on Linux

The Linux adapter of connections (`platforms/linux/stn_linux_peer.c`) and the transfers that the
application makes with it.  What the operating system answers to each call is arbitrary: the
clock, what `poll` says, and how much a `recv` or a `send` moves.  A transfer that succeeds moves
all of its octets, in their order and each once, and one that fails moves a front of them,
`LinuxPeer.rpcTransfer_effect`.
-/

namespace StnChain

/-! ## The adapter -/

/-- What `poll` says of a socket: that nothing happened in time, that it has failed, or that the
call can be made. -/
inductive PollAnswer
  | timeout | failed | ready
  deriving DecidableEq, Repr

/-- What `recv` or `send` does: it is to be made again, it fails, or it moves no more octets
than these. -/
inductive MoveAnswer
  | again | failed
  | moved (octets : ℕ)
  deriving DecidableEq, Repr

/-- What the system answers in one round of a loop. -/
structure PeerRound where
  clock : ℕ
  poll : PollAnswer
  move : MoveAnswer
  deriving DecidableEq, Repr

/-- `stn_linux_peer` with what the system will answer, the octets that will arrive and those that
it has taken.  Once the answers are used up the calls fail. -/
structure LinuxPeer where
  opened : Bool
  ioTimeout : ℕ
  deadline : ℕ
  rounds : List PeerRound
  incoming : Bytes
  sent : Bytes
  deriving DecidableEq, Repr

/-- `ready`. -/
def LinuxPeer.ready (peer : LinuxPeer) (round : PeerRound) : Except PeerStatus Unit :=
  if !peer.opened ∨ peer.ioTimeout = 0 then .error .io
  else if peer.deadline ≠ 0 ∧ (round.clock = 0 ∨ peer.deadline ≤ round.clock) then .error .io
  else
    match round.poll with
    | .timeout => .error .timeout
    | .failed => .error .io
    | .ready => .ok ()

/-- How a loop over `recv` or `send` ends: its status, the octets moved, and the answers left. -/
structure MoveOutcome where
  status : Except PeerStatus Unit
  offset : ℕ
  rounds : List PeerRound

/-- The loop of `receive_all` and of `send_all`, of which the system can move `available`
octets. -/
def LinuxPeer.moveLoop (peer : LinuxPeer) (length available : ℕ) :
    List PeerRound → ℕ → MoveOutcome
  | [], offset => ⟨if offset < length then .error .io else .ok (), offset, []⟩
  | round :: rounds, offset =>
      if offset < length then
        match peer.ready round with
        | .error status =>
            if status = .timeout ∧ offset ≠ 0 then peer.moveLoop length available rounds offset
            else ⟨.error status, offset, rounds⟩
        | .ok () =>
            match round.move with
            | .again => peer.moveLoop length available rounds offset
            | .failed => ⟨.error .io, offset, rounds⟩
            | .moved octets =>
                let moved := min octets (min (length - offset) (available - offset))
                if moved = 0 then ⟨.error .disconnected, offset, rounds⟩
                else peer.moveLoop length available rounds (offset + moved)
      else ⟨.ok (), offset, round :: rounds⟩

/-- `receive_all`. -/
def LinuxPeer.receiveAll (peer : LinuxPeer) (length : ℕ) : Except PeerStatus Bytes × LinuxPeer :=
  if length > peerMaxFrame then (.error .capacity, peer)
  else
    let o := peer.moveLoop length peer.incoming.length peer.rounds 0
    (o.status.map fun _ => peer.incoming.take o.offset,
      { peer with rounds := o.rounds, incoming := peer.incoming.drop o.offset })

/-- `send_all`. -/
def LinuxPeer.sendAll (peer : LinuxPeer) (bytes : Bytes) : Except PeerStatus Unit × LinuxPeer :=
  if bytes.length > peerMaxFrame then (.error .capacity, peer)
  else
    let o := peer.moveLoop bytes.length bytes.length peer.rounds 0
    (o.status, { peer with rounds := o.rounds, sent := peer.sent ++ bytes.take o.offset })

/-! ## The loops -/

section Loops

variable {peer : LinuxPeer} {length available offset : ℕ} {rounds : List PeerRound}

/-- What a loop keeps to: it moves octets that there are, all of them if it succeeds, and none
if it times out. -/
structure MoveOutcome.Kept (length available : ℕ) (rounds : List PeerRound) (offset : ℕ)
    (o : MoveOutcome) : Prop where
  le_offset : offset ≤ o.offset
  offset_le : o.offset ≤ length
  available : o.offset ≤ available
  left : o.rounds <:+ rounds
  complete : o.status = .ok () → o.offset = length
  idle : o.status = .error .timeout → o.offset = 0 ∧ o.rounds.length < rounds.length

theorem MoveOutcome.Kept.later {o : MoveOutcome} {round : PeerRound} {k : ℕ}
    (h : o.Kept length available rounds (offset + k)) :
    o.Kept length available (round :: rounds) offset where
  le_offset := (Nat.le_add_right offset k).trans h.le_offset
  offset_le := h.offset_le
  available := h.available
  left := h.left.trans (List.suffix_cons round rounds)
  complete := h.complete
  idle hstatus := by
    obtain ⟨hzero, hless⟩ := h.idle hstatus
    exact ⟨hzero, Nat.lt_succ_of_lt hless⟩

theorem LinuxPeer.moveLoop_kept (rounds : List PeerRound) (hoffset : offset ≤ length)
    (havailable : offset ≤ available) :
    (peer.moveLoop length available rounds offset).Kept length available rounds offset := by
  induction rounds generalizing offset with
  | nil =>
      rw [LinuxPeer.moveLoop]
      refine ⟨le_rfl, hoffset, havailable, List.suffix_rfl, fun hok => ?_, fun hidle => ?_⟩
      · by_cases hless : offset < length
        · rw [if_pos hless] at hok
          cases hok
        · exact le_antisymm hoffset (Nat.le_of_not_lt hless)
      · split at hidle
        · cases hidle
        · cases hidle
  | cons round rounds ih =>
      have hrounds := List.suffix_cons round rounds
      rw [LinuxPeer.moveLoop]
      split
      · next hless =>
          split
          · next status hready =>
              split
              · exact (ih hoffset havailable).later (k := 0)
              · next hstops =>
                  refine ⟨le_rfl, hoffset, havailable, hrounds, by simp, fun hidle => ?_⟩
                  have hzero : offset = 0 := by
                    by_contra hne
                    exact hstops ⟨Except.error.inj hidle, hne⟩
                  exact ⟨hzero, Nat.lt_succ_self _⟩
          · split
            · exact (ih hoffset havailable).later (k := 0)
            · exact ⟨le_rfl, hoffset, havailable, hrounds, by simp, by simp⟩
            · dsimp only
              split
              · exact ⟨le_rfl, hoffset, havailable, hrounds, by simp, by simp⟩
              · exact (ih (by omega) (by omega)).later
      · next hdone =>
          exact ⟨le_rfl, hoffset, havailable, List.suffix_rfl,
            fun _ => le_antisymm hoffset (Nat.le_of_not_lt hdone), by simp⟩

end Loops

/-! ## Transfers -/

/-- What a transfer is for: to receive so many octets, or to send these. -/
inductive SocketTransfer
  | receive (length : ℕ)
  | send (bytes : Bytes)

def SocketTransfer.length : SocketTransfer → ℕ
  | .receive length => length
  | .send bytes => bytes.length

/-- Of the octets that a transfer moves, those that it receives. -/
def SocketTransfer.received (moved : Bytes) : SocketTransfer → Bytes
  | .receive _ => moved
  | .send _ => []

/-- Of the octets that a transfer moves, those that it sends. -/
def SocketTransfer.delivered (moved : Bytes) : SocketTransfer → Bytes
  | .receive _ => []
  | .send _ => moved

/-- The largest part that `transfer` asks for. -/
def transferChunk : ℕ := 65536

/-- A call of `receive` or `send` in a transfer that has moved some octets, with those that it
moves. -/
def LinuxPeer.transferPart (peer : LinuxPeer) (t : SocketTransfer) (moved : Bytes) (chunk : ℕ) :
    Except PeerStatus Bytes × LinuxPeer :=
  match t with
  | .receive _ => peer.receiveAll chunk
  | .send bytes =>
      let part := (bytes.drop moved.length).take chunk
      let (status, peer) := peer.sendAll part
      (status.map fun _ => part, peer)

/-- A connection after some octets of a transfer. -/
structure LinuxPeer.Moves (t : SocketTransfer) (moved : Bytes) (peer next : LinuxPeer) : Prop where
  incoming : peer.incoming = t.received moved ++ next.incoming
  sent : next.sent = peer.sent ++ t.delivered moved

section Transfers

variable {peer next : LinuxPeer} {t : SocketTransfer} {moved part got : Bytes} {chunk : ℕ}
  {r : Except PeerStatus Bytes}

theorem LinuxPeer.Moves.refl (t : SocketTransfer) (peer : LinuxPeer) : peer.Moves t [] peer := by
  cases t with
  | receive _ => exact ⟨rfl, (List.append_nil _).symm⟩
  | send _ => exact ⟨rfl, (List.append_nil _).symm⟩

theorem LinuxPeer.Moves.trans {last : LinuxPeer} (h : peer.Moves t moved next)
    (h' : next.Moves t part last) : peer.Moves t (moved ++ part) last := by
  cases t with
  | receive _ =>
      refine ⟨?_, h'.sent.trans (by rw [h.sent]; simp [SocketTransfer.delivered])⟩
      rw [h.incoming, h'.incoming]
      simp [SocketTransfer.received]
  | send _ =>
      refine ⟨h.incoming.trans h'.incoming, ?_⟩
      rw [h'.sent, h.sent]
      simp [SocketTransfer.delivered]

/-- What a part of a transfer comes to. -/
structure LinuxPeer.PartEffect (peer : LinuxPeer) (t : SocketTransfer) (moved : Bytes) (chunk : ℕ)
    (r : Except PeerStatus Bytes) (next : LinuxPeer) (part : Bytes) : Prop where
  moves : peer.Moves t part next
  ok : ∀ got, r = .ok got → got = part ∧ part.length = chunk
  front : ∀ bytes, t = .send bytes → part <+: bytes.drop moved.length
  idle : r = .error .timeout → part = [] ∧ next.rounds.length < peer.rounds.length

theorem map_eq_error {α β ε : Type} {f : α → β} {x : Except ε α} {e : ε}
    (h : x.map f = .error e) : x = .error e := by
  cases x with
  | error e' => rw [Except.error.inj h]
  | ok a => cases h

theorem LinuxPeer.receiveAll_effect (length : ℕ) (moved : Bytes)
    (h : peer.receiveAll chunk = (r, next)) :
    ∃ part, peer.PartEffect (.receive length) moved chunk r next part := by
  unfold LinuxPeer.receiveAll at h
  split at h
  · obtain ⟨rfl, rfl⟩ := Prod.mk.inj h
    exact ⟨[], .refl _ _, by simp, by simp, by simp⟩
  have hkept :=
    peer.moveLoop_kept peer.rounds (Nat.zero_le chunk) (Nat.zero_le peer.incoming.length)
  generalize peer.moveLoop chunk peer.incoming.length peer.rounds 0 = o at h hkept
  obtain ⟨rfl, rfl⟩ := Prod.mk.inj h
  refine ⟨peer.incoming.take o.offset, ⟨?_, ?_⟩, fun got hok => ?_, by simp, fun hidle => ?_⟩
  · exact (List.take_append_drop o.offset peer.incoming).symm
  · exact (List.append_nil _).symm
  · obtain ⟨_, hstatus, rfl⟩ := map_eq_ok hok
    have hall := hkept.complete hstatus
    refine ⟨rfl, ?_⟩
    rw [List.length_take, min_eq_left hkept.available, hall]
  · obtain ⟨hzero, hless⟩ := hkept.idle (map_eq_error hidle)
    rw [hzero]
    exact ⟨rfl, hless⟩

theorem LinuxPeer.sendAll_effect {bytes : Bytes}
    (hchunk : chunk ≤ bytes.length - moved.length)
    (h : peer.transferPart (.send bytes) moved chunk = (r, next)) :
    ∃ part, peer.PartEffect (.send bytes) moved chunk r next part := by
  have hlength : ((bytes.drop moved.length).take chunk).length = chunk := by
    rw [List.length_take, List.length_drop, min_eq_left hchunk]
  have hfront : (bytes.drop moved.length).take chunk <+: bytes.drop moved.length :=
    List.take_prefix _ _
  simp only [LinuxPeer.transferPart, LinuxPeer.sendAll] at h
  generalize (bytes.drop moved.length).take chunk = whole at h hlength hfront
  split at h
  · obtain ⟨rfl, rfl⟩ := Prod.mk.inj h
    exact ⟨[], .refl _ _, by simp [Except.map], by simp, by simp [Except.map]⟩
  have hkept := peer.moveLoop_kept peer.rounds (Nat.zero_le whole.length) (Nat.zero_le whole.length)
  generalize peer.moveLoop whole.length whole.length peer.rounds 0 = o at h hkept
  obtain ⟨rfl, rfl⟩ := Prod.mk.inj h
  refine ⟨whole.take o.offset, ⟨rfl, rfl⟩, fun got hok => ?_, fun bytes' hbytes => ?_,
    fun hidle => ?_⟩
  · obtain ⟨_, hstatus, rfl⟩ := map_eq_ok hok
    rw [hkept.complete hstatus, List.take_length]
    exact ⟨rfl, hlength⟩
  · obtain rfl := SocketTransfer.send.inj hbytes
    exact (List.take_prefix _ _).trans hfront
  · obtain ⟨hzero, hless⟩ := hkept.idle (map_eq_error hidle)
    rw [hzero]
    exact ⟨rfl, hless⟩

theorem LinuxPeer.transferPart_effect (hchunk : chunk ≤ t.length - moved.length)
    (h : peer.transferPart t moved chunk = (r, next)) :
    ∃ part, peer.PartEffect t moved chunk r next part := by
  cases t with
  | receive length => exact LinuxPeer.receiveAll_effect length moved h
  | send bytes => exact LinuxPeer.sendAll_effect hchunk h

end Transfers

/-- The part of a transfer that comes next. -/
def SocketTransfer.chunk (t : SocketTransfer) (moved : Bytes) : ℕ :=
  min (t.length - moved.length) transferChunk

theorem SocketTransfer.chunk_le (t : SocketTransfer) (moved : Bytes) :
    t.chunk moved ≤ t.length - moved.length :=
  min_le_left _ _

/-- `transfer`, with the octets that it has moved. -/
def LinuxPeer.transferLoop (t : SocketTransfer) (idle : Bool) (peer : LinuxPeer) (moved : Bytes) :
    Except PeerStatus Bytes × LinuxPeer :=
  if _hdone : t.length ≤ moved.length then (.ok moved, peer)
  else
    match _hpart : peer.transferPart t moved (t.chunk moved) with
    | (.error status, next) =>
        if _hagain : status = .timeout ∧ (!idle ∨ moved ≠ []) then
          LinuxPeer.transferLoop t idle next moved
        else (.error status, next)
    | (.ok part, next) => LinuxPeer.transferLoop t idle next (moved ++ part)
termination_by (t.length - moved.length, peer.rounds.length)
decreasing_by
  · obtain ⟨part, heffect⟩ := LinuxPeer.transferPart_effect (t.chunk_le moved) _hpart
    obtain ⟨rfl, -⟩ := _hagain
    exact Prod.Lex.right _ (heffect.idle rfl).2
  · obtain ⟨part', heffect⟩ := LinuxPeer.transferPart_effect (t.chunk_le moved) _hpart
    obtain ⟨rfl, hlength⟩ := heffect.ok part rfl
    apply Prod.Lex.left
    rw [List.length_append, hlength, SocketTransfer.chunk]
    simp only [transferChunk]
    omega

/-- `APP_RPC_IO_TIMEOUT_MS`. -/
def rpcIoTimeout : ℕ := 60000

/-- `rpc_transfer`: a transfer that ends in time. -/
def LinuxPeer.rpcTransfer (peer : LinuxPeer) (t : SocketTransfer) (idle : Bool) :
    Except PeerStatus Bytes × LinuxPeer :=
  match peer.rounds with
  | [] => (.error .io, peer)
  | round :: rounds =>
      if round.clock = 0 then (.error .io, { peer with rounds })
      else
        let timed := { peer with rounds, deadline := round.clock + rpcIoTimeout }
        let (result, next) := timed.transferLoop t idle []
        (result, { next with deadline := 0 })

/-- What a transfer comes to: all of its octets if it succeeds, and none if it waits for the
first ones in vain. -/
structure LinuxPeer.TransferEffect (peer : LinuxPeer) (t : SocketTransfer) (idle : Bool)
    (moved : Bytes) (r : Except PeerStatus Bytes) (next : LinuxPeer) (part : Bytes) : Prop where
  moves : peer.Moves t part next
  ok : ∀ got, r = .ok got → got = moved ++ part ∧ got.length = t.length
  front : ∀ bytes, t = .send bytes → moved <+: bytes → moved ++ part <+: bytes
  idle : r = .error .timeout → idle = true ∧ moved ++ part = []

section TransferRuns

variable {peer next : LinuxPeer} {t : SocketTransfer} {idle : Bool} {moved : Bytes}
  {r : Except PeerStatus Bytes}

/-- A part of a transfer, and what follows it. -/
theorem LinuxPeer.TransferEffect.later {mid : LinuxPeer} {first part : Bytes}
    (h : mid.TransferEffect t idle (moved ++ first) r next part) (hfirst : peer.Moves t first mid)
    (hfront : ∀ bytes, t = .send bytes → moved <+: bytes → moved ++ first <+: bytes) :
    peer.TransferEffect t idle moved r next (first ++ part) where
  moves := hfirst.trans h.moves
  ok got hok := by
    rw [← List.append_assoc]
    exact h.ok got hok
  front bytes ht hmoved := by
    rw [← List.append_assoc]
    exact h.front bytes ht (hfront bytes ht hmoved)
  idle hidle := by
    rw [← List.append_assoc]
    exact h.idle hidle

theorem LinuxPeer.PartEffect.front_append {chunk : ℕ} {part : Bytes}
    (h : peer.PartEffect t moved chunk r next part) (bytes : Bytes) (ht : t = .send bytes)
    (hmoved : moved <+: bytes) : moved ++ part <+: bytes := by
  obtain ⟨rest, rfl⟩ := hmoved
  have hpart := h.front _ ht
  rw [List.drop_left] at hpart
  exact (List.prefix_append_right_inj moved).mpr hpart

theorem LinuxPeer.transferLoop_effect (hmoved : moved.length ≤ t.length)
    (h : peer.transferLoop t idle moved = (r, next)) :
    ∃ part, peer.TransferEffect t idle moved r next part := by
  fun_induction LinuxPeer.transferLoop t idle peer moved with
  | case1 peer moved hdone =>
      obtain ⟨rfl, rfl⟩ := Prod.mk.inj h
      refine ⟨[], .refl t peer, fun got hok => ?_, fun bytes _ hfront => ?_, by simp⟩
      · rw [List.append_nil, ← Except.ok.inj hok]
        exact ⟨rfl, le_antisymm hmoved hdone⟩
      · rw [List.append_nil]
        exact hfront
  | case2 peer moved hdone status mid hpart hagain ih =>
      obtain ⟨part, heffect⟩ := LinuxPeer.transferPart_effect (t.chunk_le moved) hpart
      obtain ⟨rest, hrest⟩ := ih hmoved h
      -- A call that timed out has moved nothing, and is made again.
      obtain ⟨rfl, -⟩ := heffect.idle (by rw [hagain.1])
      refine ⟨[] ++ rest, LinuxPeer.TransferEffect.later ?_ heffect.moves heffect.front_append⟩
      rw [List.append_nil]
      exact hrest
  | case3 peer moved hdone status mid hpart hends =>
      obtain ⟨rfl, rfl⟩ := Prod.mk.inj h
      obtain ⟨part, heffect⟩ := LinuxPeer.transferPart_effect (t.chunk_le moved) hpart
      refine ⟨part, heffect.moves, by simp, heffect.front_append, fun hidle => ?_⟩
      obtain ⟨rfl, -⟩ := heffect.idle hidle
      rw [List.append_nil]
      have hstatus : status = .timeout := Except.error.inj hidle
      by_contra hne
      apply hends
      refine ⟨hstatus, ?_⟩
      cases hon : idle with
      | false => exact .inl rfl
      | true => exact .inr fun hnil => hne ⟨hon, hnil⟩
  | case4 peer moved hdone part mid hpart ih =>
      obtain ⟨part', heffect⟩ := LinuxPeer.transferPart_effect (t.chunk_le moved) hpart
      obtain ⟨rfl, hlength⟩ := heffect.ok part rfl
      have hnext : (moved ++ part).length ≤ t.length := by
        have hchunk := t.chunk_le moved
        rw [List.length_append, hlength]
        omega
      obtain ⟨rest, hrest⟩ := ih hnext h
      exact ⟨part ++ rest, hrest.later heffect.moves heffect.front_append⟩

/-- Whatever the system answers: a transfer in time that succeeds has moved all of its octets,
one that fails a front of them, and one that waits for the first ones in vain none. -/
theorem LinuxPeer.rpcTransfer_effect (h : peer.rpcTransfer t idle = (r, next)) :
    ∃ part, peer.TransferEffect t idle [] r next part := by
  unfold LinuxPeer.rpcTransfer at h
  split at h
  · obtain ⟨rfl, rfl⟩ := Prod.mk.inj h
    exact ⟨[], .refl t _, by simp, fun _ _ _ => List.nil_prefix, by simp⟩
  split at h
  · obtain ⟨rfl, rfl⟩ := Prod.mk.inj h
    have hmoves := LinuxPeer.Moves.refl t peer
    exact ⟨[], ⟨hmoves.incoming, hmoves.sent⟩, by simp, fun _ _ _ => List.nil_prefix, by simp⟩
  next round rounds hrounds hclock =>
  dsimp only at h
  generalize htimed : LinuxPeer.transferLoop t idle _ [] = ended at h
  obtain ⟨rfl, rfl⟩ := Prod.mk.inj h
  obtain ⟨part, heffect⟩ := LinuxPeer.transferLoop_effect (Nat.zero_le _) htimed
  exact ⟨part, ⟨heffect.moves.incoming, heffect.moves.sent⟩, heffect.ok, heffect.front,
    heffect.idle⟩

end TransferRuns

/-! ## Systems that oblige -/

/-- A round in which the call is made before the deadline, if there is one, and moves
something. -/
structure PeerRound.Obliges (deadline : ℕ) (round : PeerRound) : Prop where
  early : deadline = 0 ∨ (round.clock ≠ 0 ∧ round.clock < deadline)
  poll : round.poll = .ready
  move : ∃ k, round.move = .moved (k + 1)

/-- The rounds from which a call has left some oblige, as far as it has used them, and there are
as many as it moves octets. -/
structure RoundsOblige (deadline length : ℕ) (rounds left : List PeerRound) : Prop where
  enough : length ≤ rounds.length
  used : ∀ used, used ++ left = rounds → ∀ round ∈ used, round.Obliges deadline

/-- A connection that calls can be made on. -/
structure LinuxPeer.Connected (peer : LinuxPeer) : Prop where
  opened : peer.opened = true
  ioTimeout : peer.ioTimeout ≠ 0

/-- The system obliges a transfer before its own deadline. -/
def LinuxPeer.Obliged (peer : LinuxPeer) (t : SocketTransfer) (idle : Bool) : Prop :=
  ∃ first rounds, peer.rounds = first :: rounds ∧ first.clock ≠ 0 ∧
    RoundsOblige (first.clock + rpcIoTimeout) t.length rounds (peer.rpcTransfer t idle).2.rounds

/-- The octets that a transfer still has to receive are on their way. -/
def LinuxPeer.Offers (peer : LinuxPeer) (moved : Bytes) : SocketTransfer → Prop
  | .receive length => length - moved.length ≤ peer.incoming.length
  | .send _ => True

section Obliging

variable {peer next : LinuxPeer} {deadline length available offset chunk need : ℕ}
  {round : PeerRound} {rounds mid left : List PeerRound} {t : SocketTransfer} {idle : Bool}
  {moved : Bytes}

theorem RoundsOblige.cons (h : RoundsOblige deadline length (round :: rounds) left)
    (hleft : left <:+ rounds) (hneed : need ≤ rounds.length) :
    round.Obliges deadline ∧ RoundsOblige deadline need rounds left := by
  obtain ⟨used, hused⟩ := hleft
  have hall := h.used (round :: used) (by rw [List.cons_append, hused])
  refine ⟨hall round List.mem_cons_self, hneed, fun used' hused' round' hround' => ?_⟩
  obtain rfl := List.append_cancel_right (hused'.trans hused.symm)
  exact hall round' (List.mem_cons_of_mem round hround')

/-- What obliges a call obliges its parts. -/
theorem RoundsOblige.split (h : RoundsOblige deadline length rounds left) (hmid : mid <:+ rounds)
    (hleft : left <:+ mid) :
    (∀ need, need ≤ rounds.length → RoundsOblige deadline need rounds mid) ∧
      ∀ need, need ≤ mid.length → RoundsOblige deadline need mid left := by
  obtain ⟨before, rfl⟩ := hmid
  obtain ⟨after, rfl⟩ := hleft
  have hall := h.used (before ++ after) (List.append_assoc _ _ _)
  refine ⟨fun need hneed => ⟨hneed, fun used hused round hround => ?_⟩,
    fun need hneed => ⟨hneed, fun used hused round hround => ?_⟩⟩
  · obtain rfl := List.append_cancel_right hused
    exact hall round (List.mem_append_left after hround)
  · obtain rfl := List.append_cancel_right hused
    exact hall round (List.mem_append_right before hround)

theorem LinuxPeer.Connected.ready (h : peer.Connected) (hround : round.Obliges peer.deadline) :
    peer.ready round = .ok () := by
  have hopen : ¬((!peer.opened) = true ∨ peer.ioTimeout = 0) := by
    simp [h.opened, h.ioTimeout]
  have hdeadline :
      ¬(peer.deadline ≠ 0 ∧ (round.clock = 0 ∨ peer.deadline ≤ round.clock)) := by
    rcases hround.early with hnone | ⟨hclock, hearly⟩
    · exact fun hlast => hlast.1 hnone
    · omega
  simp only [LinuxPeer.ready, if_neg hopen, if_neg hdeadline, hround.poll]

/-- A loop that is not done uses a round. -/
theorem LinuxPeer.moveLoop_uses (hless : offset < length) (havailable : length ≤ available) :
    (peer.moveLoop length available (round :: rounds) offset).rounds <:+ rounds := by
  have hoffset : offset ≤ available := hless.le.trans havailable
  rw [LinuxPeer.moveLoop, if_pos hless]
  split
  · split
    · exact (peer.moveLoop_kept rounds hless.le hoffset).left
    · exact List.suffix_rfl
  split
  · exact (peer.moveLoop_kept rounds hless.le hoffset).left
  · exact List.suffix_rfl
  · dsimp only
    split
    · exact List.suffix_rfl
    · exact (peer.moveLoop_kept rounds (by omega) (by omega)).left

theorem LinuxPeer.Connected.moveLoop (h : peer.Connected) (havailable : length ≤ available)
    (hoffset : offset ≤ length)
    (hrounds : RoundsOblige peer.deadline (length - offset) rounds
      (peer.moveLoop length available rounds offset).rounds) :
    (peer.moveLoop length available rounds offset).status = .ok () ∧
      rounds.length + offset ≤
        (peer.moveLoop length available rounds offset).rounds.length + length := by
  have henough := hrounds.enough
  induction rounds generalizing offset with
  | nil =>
      have hdone : ¬offset < length := by
        rw [List.length_nil] at henough
        omega
      simp only [LinuxPeer.moveLoop, if_neg hdone, List.length_nil, true_and]
      omega
  | cons round rounds ih =>
      by_cases hless : offset < length
      · rw [List.length_cons] at henough
        obtain ⟨hround, -⟩ := hrounds.cons (LinuxPeer.moveLoop_uses hless havailable)
          (Nat.zero_le rounds.length)
        obtain ⟨k, hmove⟩ := hround.move
        have hpositive : min (k + 1) (min (length - offset) (available - offset)) ≠ 0 := by omega
        have hfits : min (k + 1) (min (length - offset) (available - offset)) ≤ length - offset :=
          (min_le_right _ _).trans (min_le_left _ _)
        have hstep : peer.moveLoop length available (round :: rounds) offset =
            peer.moveLoop length available rounds
              (offset + min (k + 1) (min (length - offset) (available - offset))) := by
          simp only [LinuxPeer.moveLoop, if_pos hless, h.ready hround, hmove, if_neg hpositive]
        rw [hstep] at hrounds ⊢
        generalize min (k + 1) (min (length - offset) (available - offset)) = part at *
        have hkept : (peer.moveLoop length available rounds (offset + part)).Kept length available
            rounds (offset + part) := peer.moveLoop_kept rounds (by omega) (by omega)
        have hneed : length - (offset + part) ≤ rounds.length := by omega
        obtain ⟨-, hrest⟩ := hrounds.cons hkept.left hneed
        obtain ⟨hok, hleft⟩ := ih (by omega) hrest hrest.enough
        rw [List.length_cons]
        exact ⟨hok, by omega⟩
      · simp only [LinuxPeer.moveLoop, if_neg hless, true_and]
        omega

/-- A step of a transfer that succeeds, and how many rounds it takes at most. -/
structure LinuxPeer.Succeeds (peer : LinuxPeer) (rounds : ℕ) (r : Except PeerStatus Bytes)
    (next : LinuxPeer) : Prop where
  ok : ∃ got, r = .ok got
  connected : next.Connected
  deadline : next.deadline = peer.deadline
  rounds : peer.rounds.length ≤ next.rounds.length + rounds

theorem LinuxPeer.transferPart_suffix (peer : LinuxPeer) (t : SocketTransfer) (moved : Bytes)
    (chunk : ℕ) : (peer.transferPart t moved chunk).2.rounds <:+ peer.rounds := by
  cases t with
  | receive whole =>
      simp only [LinuxPeer.transferPart, LinuxPeer.receiveAll]
      split
      · exact List.suffix_rfl
      · exact (peer.moveLoop_kept peer.rounds (Nat.zero_le _) (Nat.zero_le _)).left
  | send bytes =>
      simp only [LinuxPeer.transferPart, LinuxPeer.sendAll]
      split
      · exact List.suffix_rfl
      · exact (peer.moveLoop_kept peer.rounds (Nat.zero_le _) (Nat.zero_le _)).left

theorem LinuxPeer.transferLoop_suffix (t : SocketTransfer) (idle : Bool) (peer : LinuxPeer)
    (moved : Bytes) : (peer.transferLoop t idle moved).2.rounds <:+ peer.rounds := by
  fun_induction LinuxPeer.transferLoop t idle peer moved with
  | case1 peer moved hdone => exact List.suffix_rfl
  | case2 peer moved hdone status mid hpart hagain ih =>
      have hsuffix := peer.transferPart_suffix t moved (t.chunk moved)
      rw [hpart] at hsuffix
      exact ih.trans hsuffix
  | case3 peer moved hdone status mid hpart hends =>
      have hsuffix := peer.transferPart_suffix t moved (t.chunk moved)
      rw [hpart] at hsuffix
      exact hsuffix
  | case4 peer moved hdone part mid hpart ih =>
      have hsuffix := peer.transferPart_suffix t moved (t.chunk moved)
      rw [hpart] at hsuffix
      exact ih.trans hsuffix

theorem LinuxPeer.Connected.transferPart (h : peer.Connected) (hsize : chunk ≤ peerMaxFrame)
    (hoffers : peer.Offers moved t) (hchunk : chunk ≤ t.length - moved.length)
    (hrounds : RoundsOblige peer.deadline chunk peer.rounds
      (peer.transferPart t moved chunk).2.rounds) :
    peer.Succeeds chunk (peer.transferPart t moved chunk).1
      (peer.transferPart t moved chunk).2 := by
  cases t with
  | receive whole =>
      have hle : chunk ≤ peer.incoming.length := hchunk.trans hoffers
      simp only [LinuxPeer.transferPart, LinuxPeer.receiveAll, if_neg (Nat.not_lt.mpr hsize)]
        at hrounds ⊢
      obtain ⟨hok, hleft⟩ := h.moveLoop hle (Nat.zero_le chunk) hrounds
      rw [hok]
      exact ⟨⟨_, rfl⟩, ⟨h.opened, h.ioTimeout⟩, rfl, hleft⟩
  | send bytes =>
      have hfits : chunk ≤ bytes.length - moved.length := hchunk
      have hlength : ((bytes.drop moved.length).take chunk).length = chunk := by
        rw [List.length_take, List.length_drop, min_eq_left hfits]
      simp only [LinuxPeer.transferPart, LinuxPeer.sendAll, hlength, if_neg (Nat.not_lt.mpr hsize)]
        at hrounds ⊢
      obtain ⟨hok, hleft⟩ := h.moveLoop (le_refl chunk) (Nat.zero_le chunk) hrounds
      rw [hok]
      exact ⟨⟨_, rfl⟩, ⟨h.opened, h.ioTimeout⟩, rfl, hleft⟩

/-- A transfer succeeds if every round that it uses obliges. -/
theorem LinuxPeer.Connected.transferLoop (h : peer.Connected) (hoffers : peer.Offers moved t)
    (hmoved : moved.length ≤ t.length)
    (hrounds : RoundsOblige peer.deadline (t.length - moved.length) peer.rounds
      (peer.transferLoop t idle moved).2.rounds) :
    peer.Succeeds (t.length - moved.length) (peer.transferLoop t idle moved).1
      (peer.transferLoop t idle moved).2 := by
  have hsize (moved : Bytes) : t.chunk moved ≤ peerMaxFrame :=
    (min_le_right _ _).trans (by decide)
  -- The part that comes next uses rounds of the transfer, so it succeeds.
  have hfirst {peer : LinuxPeer} {moved : Bytes} {r : Except PeerStatus Bytes} {mid : LinuxPeer}
      {last : List PeerRound} (h : peer.Connected) (hoffers : peer.Offers moved t)
      (hpart : peer.transferPart t moved (t.chunk moved) = (r, mid))
      (hrounds : RoundsOblige peer.deadline (t.length - moved.length) peer.rounds last)
      (hlast : last <:+ mid.rounds) :
      peer.Succeeds (t.chunk moved) r mid ∧
        ∀ need, need ≤ mid.rounds.length → RoundsOblige peer.deadline need mid.rounds last := by
    have hsuffix := peer.transferPart_suffix t moved (t.chunk moved)
    rw [hpart] at hsuffix
    obtain ⟨hused, hrest⟩ := hrounds.split hsuffix hlast
    have hdone := h.transferPart (hsize moved) hoffers (t.chunk_le moved) (by
      rw [hpart]
      exact hused _ ((t.chunk_le moved).trans hrounds.enough))
    rw [hpart] at hdone
    exact ⟨hdone, hrest⟩
  fun_induction LinuxPeer.transferLoop t idle peer moved with
  | case1 peer moved hdone => exact ⟨⟨_, rfl⟩, h, rfl, Nat.le_add_right _ _⟩
  | case2 peer moved hdone status mid hpart hagain ih =>
      obtain ⟨⟨⟨got, hgot⟩, -⟩, -⟩ := hfirst h hoffers hpart hrounds
        (LinuxPeer.transferLoop_suffix t idle mid moved)
      cases hgot
  | case3 peer moved hdone status mid hpart hends =>
      obtain ⟨⟨⟨got, hgot⟩, -⟩, -⟩ := hfirst h hoffers hpart hrounds List.suffix_rfl
      cases hgot
  | case4 peer moved hdone part mid hpart ih =>
      obtain ⟨hpart', hrest⟩ := hfirst h hoffers hpart hrounds
        (LinuxPeer.transferLoop_suffix t idle mid (moved ++ part))
      obtain ⟨part', heffect⟩ := LinuxPeer.transferPart_effect (t.chunk_le moved) hpart
      obtain ⟨rfl, hlength⟩ := heffect.ok part rfl
      have hchunk := t.chunk_le moved
      have hleft : peer.rounds.length ≤ mid.rounds.length + t.chunk moved := hpart'.rounds
      have hgrown : (moved ++ part).length = moved.length + t.chunk moved := by
        rw [List.length_append, hlength]
      have hoffers' : mid.Offers (moved ++ part) t := by
        have hincoming := heffect.moves.incoming
        cases t with
        | receive whole =>
            have hless : whole - moved.length ≤ peer.incoming.length := hoffers
            rw [hincoming, SocketTransfer.received, List.length_append, hlength] at hless
            simp only [LinuxPeer.Offers, hgrown]
            omega
        | send bytes => trivial
      have hsmaller : (moved ++ part).length ≤ t.length := by omega
      have henough := hrounds.enough
      have hlater := hrest (t.length - (moved ++ part).length) (by omega)
      rw [← hpart'.deadline] at hlater
      have hdone' := ih hpart'.connected hoffers' hsmaller hlater
      refine ⟨hdone'.ok, hdone'.connected, hdone'.deadline.trans hpart'.deadline, ?_⟩
      have hlast := hdone'.rounds
      omega

/-- A transfer that the system obliges before its deadline succeeds. -/
theorem LinuxPeer.Connected.rpcTransfer (h : peer.Connected) (hoffers : peer.Offers [] t)
    (hobliged : peer.Obliged t idle) :
    ∃ got next, peer.rpcTransfer t idle = (.ok got, next) ∧ next.Connected := by
  obtain ⟨first, rounds, hfirst, hclock, hrounds⟩ := hobliged
  simp only [LinuxPeer.rpcTransfer, hfirst, if_neg hclock] at hrounds ⊢
  have hconnected : LinuxPeer.Connected
      { peer with rounds, deadline := first.clock + rpcIoTimeout } := ⟨h.opened, h.ioTimeout⟩
  have hoffers' : LinuxPeer.Offers
      { peer with rounds, deadline := first.clock + rpcIoTimeout } [] t := by
    cases t with
    | receive _ => exact hoffers
    | send _ => trivial
  have hdone := hconnected.transferLoop hoffers' (Nat.zero_le _) hrounds
  obtain ⟨got, hok⟩ := hdone.ok
  exact ⟨got, _, Prod.ext hok rfl, ⟨hdone.connected.opened, hdone.connected.ioTimeout⟩⟩

/-- A loop is done when one round moves all the octets. -/
theorem LinuxPeer.Connected.moveLoop_once (h : peer.Connected) (rounds : List PeerRound)
    (hround : round.Obliges peer.deadline) {k : ℕ} (hmove : round.move = .moved k)
    (hpositive : 0 < length) (hall : length ≤ k) (havailable : length ≤ available) :
    peer.moveLoop length available (round :: rounds) 0 = ⟨.ok (), length, rounds⟩ := by
  have hmoved : min k (min (length - 0) (available - 0)) = length := by omega
  have hdone : peer.moveLoop length available rounds (0 + length) = ⟨.ok (), length, rounds⟩ := by
    rw [Nat.zero_add]
    cases rounds <;> simp [LinuxPeer.moveLoop]
  simp only [LinuxPeer.moveLoop, if_pos hpositive, h.ready hround, hmove, hmoved,
    if_neg hpositive.ne', hdone]

theorem LinuxPeer.Connected.transferPart_once (h : peer.Connected)
    (hrounds : peer.rounds = round :: rounds) (hround : round.Obliges peer.deadline) {k : ℕ}
    (hmove : round.move = .moved k) (hpositive : 0 < t.length) (hall : t.length ≤ k)
    (hsize : t.length ≤ peerMaxFrame) (hoffers : peer.Offers [] t) :
    ∃ part mid, peer.transferPart t [] t.length = (.ok part, mid) ∧ part.length = t.length ∧
      mid.rounds = rounds := by
  have hframe : ¬t.length > peerMaxFrame := Nat.not_lt.mpr hsize
  cases t with
  | receive length =>
      have havailable : length ≤ peer.incoming.length := hoffers
      have hmoved : peer.moveLoop length peer.incoming.length peer.rounds 0 =
          ⟨.ok (), length, rounds⟩ := by
        rw [hrounds]
        exact h.moveLoop_once rounds hround hmove hpositive hall havailable
      have hframe : ¬length > peerMaxFrame := hframe
      refine ⟨peer.incoming.take length,
        { peer with rounds, incoming := peer.incoming.drop length }, ?_, ?_, rfl⟩
      · simp only [LinuxPeer.transferPart, SocketTransfer.length, LinuxPeer.receiveAll,
          if_neg hframe, hmoved, Except.map]
      · rw [List.length_take, min_eq_left havailable, SocketTransfer.length]
  | send bytes =>
      have hmoved : peer.moveLoop bytes.length bytes.length peer.rounds 0 =
          ⟨.ok (), bytes.length, rounds⟩ := by
        rw [hrounds]
        exact h.moveLoop_once rounds hround hmove hpositive hall le_rfl
      have hframe : ¬bytes.length > peerMaxFrame := hframe
      refine ⟨bytes, { peer with rounds, sent := peer.sent ++ bytes }, ?_, rfl, rfl⟩
      simp only [LinuxPeer.transferPart, SocketTransfer.length, LinuxPeer.sendAll,
        List.length_nil, List.drop_zero, List.take_length, if_neg hframe, hmoved, Except.map]

/-- A transfer that one round moves whole in time is obliged. -/
theorem LinuxPeer.Connected.transfer_once (h : peer.Connected) {first : PeerRound}
    (hrounds : peer.rounds = first :: round :: rounds) (hclock : first.clock ≠ 0)
    (hround : round.Obliges (first.clock + rpcIoTimeout)) {k : ℕ}
    (hmove : round.move = .moved k) (hpositive : 0 < t.length) (hall : t.length ≤ k)
    (hchunk : t.length ≤ transferChunk) (henough : t.length ≤ rounds.length + 1)
    (hoffers : peer.Offers [] t) :
    peer.Obliged t idle ∧ (peer.rpcTransfer t idle).2.rounds = rounds := by
  have hless : ¬t.length ≤ ([] : Bytes).length := Nat.not_le.mpr hpositive
  have hwhole : t.chunk [] = t.length := min_eq_left hchunk
  have htimed : LinuxPeer.Connected
      { peer with rounds := round :: rounds, deadline := first.clock + rpcIoTimeout } :=
    ⟨h.opened, h.ioTimeout⟩
  have hoffers' : LinuxPeer.Offers
      { peer with rounds := round :: rounds, deadline := first.clock + rpcIoTimeout } [] t := by
    cases t with
    | receive _ => exact hoffers
    | send _ => trivial
  obtain ⟨part, mid, hpart, hlength, hmid⟩ := htimed.transferPart_once rfl hround hmove hpositive
    hall (hchunk.trans (by decide)) hoffers'
  have hleft : (peer.rpcTransfer t idle).2.rounds = rounds := by
    simp only [LinuxPeer.rpcTransfer, hrounds, if_neg hclock]
    unfold LinuxPeer.transferLoop
    rw [dif_neg hless]
    split
    · next hrefused =>
        rw [hwhole, hpart] at hrefused
        cases hrefused
    · next part' mid' hpart' =>
        rw [hwhole, hpart] at hpart'
        obtain ⟨hsame, rfl⟩ := Prod.mk.inj hpart'
        obtain rfl := Except.ok.inj hsame
        rw [LinuxPeer.transferLoop, dif_pos (by rw [List.nil_append, hlength])]
        exact hmid
  refine ⟨⟨first, round :: rounds, hrounds, hclock, ?_, fun used hused round' hround' => ?_⟩, hleft⟩
  · rwa [List.length_cons]
  · rw [hleft] at hused
    obtain rfl : used = [round] := List.append_cancel_right hused
    rw [List.mem_singleton.mp hround']
    exact hround

/-- A transfer of nothing only reads the clock. -/
theorem LinuxPeer.transfer_nothing {first : PeerRound} (hrounds : peer.rounds = first :: rounds)
    (hclock : first.clock ≠ 0) (hlength : t.length = 0) :
    peer.Obliged t idle ∧ (peer.rpcTransfer t idle).2.rounds = rounds := by
  have hleft : (peer.rpcTransfer t idle).2.rounds = rounds := by
    simp only [LinuxPeer.rpcTransfer, hrounds, if_neg hclock]
    rw [LinuxPeer.transferLoop, dif_pos (by simp [hlength])]
  refine ⟨⟨first, rounds, hrounds, hclock, by simp [hlength], fun used hused round hround => ?_⟩,
    hleft⟩
  rw [hleft] at hused
  obtain rfl : used = [] := List.append_cancel_right (hused.trans (List.nil_append rounds).symm)
  cases hround

end Obliging

end StnChain
