import StnChain.Peer.Candidates
import StnChain.Peer.Sync

/-!
# The outbound lane

The one connection a node opens by itself (`stn_peer_outbound_step` of `stn_peer.c`).  Every
step opens or refreshes the connection to the selected candidate and synchronizes over it; a
new connection is asked for further candidates once, and a failure selects the next one.
Between the steps payloads may be admitted to the same set.  Whatever the peers do, the
candidates stay a set within its bound and the selection within the set,
`peer_candidates_kept`.
-/

namespace StnChain

/-! ## The operations -/

/-- `STN_PEER_OUTBOUND_INTERVAL_MS`. -/
def peerOutboundInterval : UInt64 := 5000

/-- `stn_peer_outbound`, over the state of a connection; there is one while `connected` is
set, and a status of `none` is `STN_PEER_OK`. -/
structure PeerOutbound (σ : Type) where
  candidates : List PeerEndpoint
  self : Option PeerEndpoint
  connection : Option σ
  remoteCapabilities : ℕ
  lastDiscovery : Option PeerStatus
  next : ℕ
  lastStep : UInt64
  started : Bool
  lastStatus : Option PeerStatus

/-- `stn_peer_outbound_init`. -/
def peerOutboundInit {σ : Type} (candidates : List PeerEndpoint) :
    Except PeerStatus (PeerOutbound σ) :=
  if candidates.length > peerCandidateMax then .error .argument
  else
    match candidates.foldlM peerCandidateAdd [] with
    | .error _ => .error .argument
    | .ok set => .ok {
        candidates := set, self := none, connection := none, remoteCapabilities := 0
        lastDiscovery := none, next := 0, lastStep := 0, started := false, lastStatus := none }

section Lane

variable {σ : Type}

/-- The end of a step with a status: the connection is kept, or closed and the next
candidate selected. -/
def PeerOutbound.ended (out : PeerOutbound σ) (status : Option PeerStatus) (connection : σ) :
    PeerOutbound σ :=
  if status = none ∨ status = some .retained then
    { out with connection := some connection, lastStatus := status }
  else
    { out with
      connection := none
      next := (out.next + 1) % out.candidates.length
      lastStatus := status }

/-- What the answer to `STN_PEER_GET_PEERS` makes of the lane; the selected candidate is
looked up again. -/
def PeerOutbound.discovered (out : PeerOutbound σ) (selected : Option PeerEndpoint) :
    Except PeerStatus Bytes → PeerOutbound σ
  | .error status => { out with lastDiscovery := some status }
  | .ok payload =>
      let candidates := admitted out.candidates out.self payload
      { out with
        candidates
        next := candidates.findIdx fun p => selected = some p
        lastDiscovery :=
          match peerDiscoveryAdmit out.candidates out.self payload with
          | .error status => some status
          | .ok _ => none }

/-- The status of a step after discovery. -/
def PeerOutbound.discoveryStatus (out : PeerOutbound σ) (status : Option PeerStatus) :
    Option PeerStatus :=
  if out.lastDiscovery = none ∨ out.lastDiscovery = some .capacity then status
  else out.lastDiscovery

variable [Primitives]

/-- What a step finds: the time, the node's storage and workspace, the connection's transport,
what `open` makes of the selected candidate, and the state in which a failed exchange leaves
the connection. -/
structure PeerStepInput (σ : Type) where
  context : ChainContext
  now : UInt64
  storage : StorageStore
  workspace : PeerWorkspace context.hashProvider
  transport : PeerTransport σ
  opened : Except PeerStatus σ
  left : σ

/-- What a step leaves: its status, the lane, the synchronization, and the payload of the
discovery. -/
structure PeerStepOutcome (σ : Type) (provider : HashProvider) where
  status : Option PeerStatus
  outbound : PeerOutbound σ
  session : Option (SyncOutcome σ provider)
  evidence : Option Bytes

/-- The part of `stn_peer_outbound_step` after the synchronization. -/
def PeerOutbound.synchronized (out : PeerOutbound σ) (input : PeerStepInput σ)
    (established : Bool) (session : SyncOutcome σ input.context.hashProvider) :
    PeerStepOutcome σ input.context.hashProvider :=
  let status := session.report.status
  let connection := session.transport.getD input.left
  let learned := { out with
    remoteCapabilities := session.capabilities.getD out.remoteCapabilities }
  if (status = none ∨ status = some .retained) ∧ !established then
    let awaiting := { learned with lastDiscovery := some .retained }
    if learned.remoteCapabilities &&& 2 ≠ 0 then
      let answer := peerExchange input.transport input.workspace.frameCapacity .getPeers []
        .peers connection
      let payload := answer.map Prod.fst
      let found := awaiting.discovered out.candidates[out.next]? payload
      let connection := (answer.map Prod.snd).toOption.getD input.left
      let status := found.discoveryStatus status
      ⟨status, found.ended status connection, some session, payload.toOption⟩
    else ⟨status, awaiting.ended status connection, some session, none⟩
  else ⟨status, learned.ended status connection, some session, none⟩

/-- `stn_peer_outbound_step`. -/
def peerOutboundStep (out : PeerOutbound σ) (input : PeerStepInput σ) :
    PeerStepOutcome σ input.context.hashProvider :=
  if out.candidates.length = 0 then ⟨some .retained, out, none, none⟩
  else if out.started ∧
      (input.now < out.lastStep ∨ input.now - out.lastStep < peerOutboundInterval) then
    ⟨some .retained, out, none, none⟩
  else
    let begun := { out with started := true, lastStep := input.now }
    match out.connection, input.opened with
    | none, .error status =>
        ⟨some status, { begun with
          next := (out.next + 1) % out.candidates.length
          lastStatus := some status }, none, none⟩
    | none, .ok connection =>
        begun.synchronized input false
          (syncSession false input.storage input.transport input.workspace connection)
    | some connection, _ =>
        begun.synchronized input true
          (syncSession true input.storage input.transport input.workspace connection)

/-- What happens to a lane: a payload is admitted, or a step is taken. -/
inductive PeerEvent (σ : Type)
  | discovery (payload : Bytes)
  | step (input : PeerStepInput σ)

/-- The lane after an event. -/
def PeerOutbound.after (out : PeerOutbound σ) : PeerEvent σ → PeerOutbound σ
  | .discovery payload => { out with candidates := admitted out.candidates out.self payload }
  | .step input => (peerOutboundStep out input).outbound

/-- The payload an event offers the set. -/
def PeerOutbound.payload (out : PeerOutbound σ) : PeerEvent σ → Option Bytes
  | .discovery payload => some payload
  | .step input => (peerOutboundStep out input).evidence

/-- The lane after some events. -/
def peerOutboundRun (out : PeerOutbound σ) (events : List (PeerEvent σ)) : PeerOutbound σ :=
  events.foldl PeerOutbound.after out

/-- The payloads some events offer the set. -/
def peerPayloads : PeerOutbound σ → List (PeerEvent σ) → List Bytes
  | _, [] => []
  | out, event :: rest => (out.payload event).toList ++ peerPayloads (out.after event) rest

/-! ## One step -/

/-- The selection is that of a candidate, if there is one. -/
def PeerOutbound.Selects (out : PeerOutbound σ) : Prop :=
  out.next < out.candidates.length ∨ out.candidates.length = 0 ∧ out.next = 0

/-- The lane has the candidates, the endpoint and the selection of another one. -/
structure PeerOutbound.Follows (learned out : PeerOutbound σ) : Prop where
  candidates : learned.candidates = out.candidates
  self : learned.self = out.self
  next : learned.next = out.next

omit [Primitives] in
/-- The selected candidate is found among the candidates after discovery. -/
theorem PeerOutbound.Follows.discovered {learned out : PeerOutbound σ} (h : learned.Follows out)
    (hset : CandidateSet out.candidates) (hnext : out.next < out.candidates.length)
    {selected : Option PeerEndpoint} (hselected : selected = out.candidates[out.next]?)
    (answer : Except PeerStatus Bytes) :
    let found := learned.discovered selected answer
    found.candidates =
        (answer.toOption.map (admitted out.candidates out.self)).getD out.candidates ∧
      found.self = out.self ∧ found.next < found.candidates.length := by
  cases answer with
  | error status =>
      refine ⟨h.candidates, h.self, ?_⟩
      rwa [PeerOutbound.discovered, h.candidates, h.next]
  | ok payload =>
      simp only [PeerOutbound.discovered, h.candidates, h.self]
      refine ⟨rfl, trivial, List.findIdx_lt_length.mpr ⟨out.candidates[out.next], ?_, ?_⟩⟩
      · rw [admitted_eq hset]
        exact (BoundedSet.mem_offer endpointKey_injective hset.kept).1 (List.getElem_mem hnext)
      · rw [hselected, List.getElem?_eq_getElem hnext]
        exact decide_eq_true rfl

/-- A step changes the candidates by admitting its evidence and keeps the selection among
them. -/
structure StepKeeps (out : PeerOutbound σ) {provider : HashProvider}
    (r : PeerStepOutcome σ provider) : Prop where
  candidates : r.outbound.candidates =
    (r.evidence.map (admitted out.candidates out.self)).getD out.candidates
  self : r.outbound.self = out.self
  selects : r.outbound.next < r.outbound.candidates.length

/-- The end of a step keeps what the step made of the candidates. -/
theorem StepKeeps.ended {out found : PeerOutbound σ} {provider : HashProvider}
    {session : Option (SyncOutcome σ provider)} {evidence : Option Bytes}
    (hcandidates : found.candidates =
      (evidence.map (admitted out.candidates out.self)).getD out.candidates)
    (hself : found.self = out.self) (hselects : found.next < found.candidates.length)
    (status : Option PeerStatus) (connection : σ) :
    StepKeeps out ⟨status, found.ended status connection, session, evidence⟩ := by
  simp only [PeerOutbound.ended]
  split
  · exact ⟨hcandidates, hself, hselects⟩
  · exact ⟨hcandidates, hself, Nat.mod_lt _ (Nat.zero_lt_of_lt hselects)⟩

theorem PeerOutbound.Follows.synchronized {begun out : PeerOutbound σ} (h : begun.Follows out)
    (hset : CandidateSet out.candidates) (hnext : out.next < out.candidates.length)
    (input : PeerStepInput σ) (established : Bool)
    (session : SyncOutcome σ input.context.hashProvider) :
    StepKeeps out (begun.synchronized input established session) := by
  have hlearned (lastDiscovery : Option PeerStatus) : PeerOutbound.Follows { begun with
      remoteCapabilities := session.capabilities.getD begun.remoteCapabilities
      lastDiscovery } out :=
    ⟨h.candidates, h.self, h.next⟩
  have hselects : begun.next < begun.candidates.length := by
    rwa [h.candidates, h.next]
  simp only [PeerOutbound.synchronized]
  split
  · split
    · have hselected : begun.candidates[begun.next]? = out.candidates[out.next]? := by
        rw [h.candidates, h.next]
      obtain ⟨hcandidates, hself, hfound⟩ := (hlearned (some .retained)).discovered hset hnext
        hselected ((peerExchange input.transport input.workspace.frameCapacity .getPeers []
          .peers (session.transport.getD input.left)).map Prod.fst)
      exact StepKeeps.ended hcandidates hself hfound _ _
    · refine StepKeeps.ended ?_ ?_ ?_ _ _
      · exact h.candidates
      · exact h.self
      · exact hselects
  · refine StepKeeps.ended ?_ ?_ ?_ _ _
    · exact h.candidates
    · exact h.self
    · exact hselects

theorem peerOutboundStep_keeps {out : PeerOutbound σ} (hset : CandidateSet out.candidates)
    (hnext : out.next < out.candidates.length) (input : PeerStepInput σ) :
    StepKeeps out (peerOutboundStep out input) := by
  have hbegun : PeerOutbound.Follows { out with started := true, lastStep := input.now } out :=
    ⟨rfl, rfl, rfl⟩
  simp only [peerOutboundStep]
  split
  · exact ⟨rfl, rfl, hnext⟩
  split
  · exact ⟨rfl, rfl, hnext⟩
  split
  · exact ⟨rfl, rfl, Nat.mod_lt _ (Nat.zero_lt_of_lt hnext)⟩
  · exact hbegun.synchronized hset hnext input false _
  · exact hbegun.synchronized hset hnext input true _

/-- A step without candidates does nothing. -/
theorem peerOutboundStep_idle {out : PeerOutbound σ} (h : out.candidates.length = 0)
    (input : PeerStepInput σ) : peerOutboundStep out input = ⟨some .retained, out, none, none⟩ :=
  if_pos h

/-! ## Runs -/

/-- What holds of a lane in every run. -/
structure LaneKept (out : PeerOutbound σ) : Prop where
  set : CandidateSet out.candidates
  selects : out.Selects

/-- An event offers the set its payload, and that is all it does to it. -/
theorem LaneKept.after {out : PeerOutbound σ} (h : LaneKept out) (event : PeerEvent σ) :
    (out.after event).candidates =
        ((out.payload event).map (admitted out.candidates out.self)).getD out.candidates ∧
      (out.after event).self = out.self ∧ LaneKept (out.after event) := by
  cases event with
  | discovery payload =>
      refine ⟨rfl, rfl, h.set.admitted _ _, ?_⟩
      rcases h.selects with hnext | ⟨hempty, hzero⟩
      · exact Or.inl (hnext.trans_le (length_le_admitted h.set _ _))
      · rcases Nat.eq_zero_or_pos (admitted out.candidates out.self payload).length with
          hlength | hlength
        · exact Or.inr ⟨hlength, hzero⟩
        · refine Or.inl ?_
          show out.next < _
          rwa [hzero]
  | step input =>
      rcases h.selects with hnext | ⟨hempty, hzero⟩
      · obtain ⟨hcandidates, hself, hselects⟩ := peerOutboundStep_keeps h.set hnext input
        refine ⟨hcandidates, hself, ?_, Or.inl hselects⟩
        show CandidateSet (peerOutboundStep out input).outbound.candidates
        rw [hcandidates]
        cases (peerOutboundStep out input).evidence with
        | none => exact h.set
        | some payload => exact h.set.admitted _ _
      · have hidle := peerOutboundStep_idle hempty input
        rw [PeerOutbound.after, PeerOutbound.payload, hidle]
        exact ⟨rfl, rfl, h⟩

/-- A run offers the set the payloads of its events. -/
theorem LaneKept.run {out : PeerOutbound σ} (h : LaneKept out) (events : List (PeerEvent σ)) :
    (peerOutboundRun out events).candidates =
        ((peerPayloads out events).map (offered out.self)).foldl
          (BoundedSet.offer endpointKey peerCandidateMax) out.candidates ∧
      (peerOutboundRun out events).self = out.self ∧ LaneKept (peerOutboundRun out events) := by
  induction events generalizing out with
  | nil => exact ⟨rfl, rfl, h⟩
  | cons event rest ih =>
      obtain ⟨hcandidates, hself, hkept⟩ := h.after event
      obtain ⟨hrest, hrestSelf, hrestKept⟩ := ih hkept
      refine ⟨?_, hrestSelf.trans hself, hrestKept⟩
      rw [peerPayloads, List.map_append, List.foldl_append]
      have hrun : peerOutboundRun out (event :: rest) = peerOutboundRun (out.after event) rest :=
        rfl
      rw [hrun, hrest, hself, hcandidates]
      cases out.payload event with
      | none => exact rfl
      | some payload =>
          rw [Option.map_some, Option.getD_some, admitted_eq h.set]
          exact rfl

omit [Primitives] in
theorem candidates_of_foldlM {entries set set' : List PeerEndpoint} (hset : CandidateSet set)
    (h : entries.foldlM peerCandidateAdd set = .ok set') :
    CandidateSet set' ∧ ∀ p, p ∈ set' ↔ p ∈ set ∨ p ∈ entries := by
  induction entries generalizing set with
  | nil =>
      obtain rfl := Except.ok.inj h
      exact ⟨hset, fun p => by simp⟩
  | cons endpoint rest ih =>
      obtain ⟨added, hadd, hrest⟩ := bind_eq_ok_iff.mp h
      have hvalid : endpointValid endpoint = true := by
        by_contra hbad
        rw [peerCandidateAdd_unusable set hbad] at hadd
        cases hadd
      rw [peerCandidateAdd_eq hset hvalid] at hadd
      split at hadd
      · cases hadd
      next hnew =>
      split at hadd
      · cases hadd
      next hroom =>
      obtain rfl := Except.ok.inj hadd
      obtain ⟨hset', hmem⟩ := ih (hset.insert hvalid hnew hroom) hrest
      refine ⟨hset', fun p => ?_⟩
      rw [hmem, SortedTable.mem_insert, List.mem_cons]
      tauto

omit [Primitives] in
theorem peerOutboundInit_kept {entries : List PeerEndpoint} {out : PeerOutbound σ}
    (h : peerOutboundInit entries = .ok out) (self : Option PeerEndpoint) :
    LaneKept { out with self } ∧ ∀ p, p ∈ out.candidates ↔ p ∈ entries := by
  simp only [peerOutboundInit] at h
  split at h
  · cases h
  split at h
  · cases h
  next set hfold =>
  obtain rfl := Except.ok.inj h
  have hempty : CandidateSet [] := ⟨.nil, fun _ hp => absurd hp List.not_mem_nil⟩
  obtain ⟨hset, hmem⟩ := candidates_of_foldlM hempty hfold
  refine ⟨⟨hset, ?_⟩, fun p => ?_⟩
  · rcases Nat.eq_zero_or_pos set.length with hlength | hlength
    · exact Or.inr ⟨hlength, rfl⟩
    · exact Or.inl hlength
  · rw [hmem, or_iff_right List.not_mem_nil]

/-- A malformed payload offers nothing. -/
theorem LaneKept.malformed {out : PeerOutbound σ} (h : LaneKept out) {event : PeerEvent σ}
    {payload : Bytes} (hpayload : out.payload event = some payload)
    (hmalformed : discoveryEndpoints payload = none) :
    (out.after event).candidates = out.candidates := by
  have hoffered : offered out.self payload = [] := by
    rw [offered, hmalformed]
    exact ite_self []
  rw [(h.after event).1, hpayload, Option.map_some, Option.getD_some, admitted_eq h.set, hoffered]
  exact rfl

/-- In every run from an initial set the candidates are distinct and within the bound, the
selection is one of them, and the node itself is not added.  A malformed payload changes
nothing; an encoded set adds its members but its encoder and the receiver; and while all that
is offered fits, the order in which it is offered does not matter. -/
theorem peer_candidates_kept {entries : List PeerEndpoint} {out : PeerOutbound σ}
    (hinit : peerOutboundInit entries = .ok out) (self : Option PeerEndpoint)
    (events : List (PeerEvent σ)) :
    let start : PeerOutbound σ := { out with self }
    let lane := peerOutboundRun start events
    lane.candidates.Nodup ∧ lane.candidates.length ≤ peerCandidateMax ∧ lane.Selects ∧
    (∀ p, self = some p → p ∈ lane.candidates → p ∈ entries) ∧
    (∀ event payload, lane.payload event = some payload → discoveryEndpoints payload = none →
      (lane.after event).candidates = lane.candidates) ∧
    (∀ set encoder capacity payload, peerDiscoveryEncode set encoder capacity = .ok payload →
      ((∃ known, peerDiscoveryAdmit lane.candidates self payload = .ok known) ↔
        self.all endpointValid = true ∧
          (lane.candidates ++ set.filter fun p => encoder ≠ some p ∧ self ≠ some p).toFinset.card ≤
            peerCandidateMax) ∧
      ∀ known, peerDiscoveryAdmit lane.candidates self payload = .ok known →
        ∀ p, p ∈ known ↔ p ∈ lane.candidates ∨ (p ∈ set ∧ encoder ≠ some p ∧ self ≠ some p)) ∧
    (∀ events', (peerPayloads start events').Perm (peerPayloads start events) →
      (entries ++ (peerPayloads start events).flatMap (offered self)).toFinset.card ≤
        peerCandidateMax →
      (peerOutboundRun start events').candidates = lane.candidates) := by
  intro start lane
  obtain ⟨hstart, hentries⟩ := peerOutboundInit_kept hinit self
  obtain ⟨hcandidates, hself, hkept⟩ := hstart.run events
  refine ⟨hkept.set.kept.nodup, hkept.set.kept.within, hkept.selects, ?_, ?_, ?_, ?_⟩
  · intro p hp hmem
    rw [hcandidates] at hmem
    rcases List.mem_append.mp (BoundedSet.mem_of_mem_foldl_offer endpointKey_injective
      hstart.set.kept hmem) with hold | hnew
    · exact (hentries p).mp hold
    · obtain ⟨batch, hbatch, hin⟩ := List.mem_flatten.mp hnew
      obtain ⟨payload, -, rfl⟩ := List.mem_map.mp hbatch
      exact absurd hp (of_mem_offered hin).2
  · intro event payload
    exact hkept.malformed
  · intro set encoder capacity payload hencode
    exact hkept.set.admit_encoded hencode
  · intro events' hperm hfits
    obtain ⟨hcandidates', -, -⟩ := hstart.run events'
    have hunion : ∀ p, p ∈ out.candidates ++
        ((peerPayloads start events).map (offered self)).flatten ↔
          p ∈ entries ++ (peerPayloads start events).flatMap (offered self) := by
      intro p
      rw [List.mem_append, List.mem_append, hentries, List.flatMap_def]
    rw [hcandidates', hcandidates]
    refine BoundedSet.foldl_offer_perm endpointKey_injective hstart.set.kept (hperm.map _) ?_
    rwa [List.toFinset.ext hunion]

end Lane

section Sample

attribute [local instance] Sample.createPrimitives

namespace Sample

/-- The endpoint of a host of a private network. -/
def hostEndpoint (host : ℕ) : PeerEndpoint :=
  ⟨BitVec.ofNat 32 (0x0a000000 + host), 9000⟩

/-- A lane with one candidate. -/
def oneCandidate : PeerOutbound Unit where
  candidates := [hostEndpoint 1]
  self := none
  connection := none
  remoteCapabilities := 0
  lastDiscovery := none
  next := 0
  lastStep := 0
  started := false
  lastStatus := none

/-- Two payloads; the first has the node itself. -/
def twoPayloads : List (PeerEvent Unit) :=
  [.discovery (discoveryBytes [hostEndpoint 4, hostEndpoint 2]),
    .discovery (discoveryBytes [hostEndpoint 3])]

end Sample

open Sample

theorem sample_candidates_kept :
    (peerOutboundRun { oneCandidate with self := some (hostEndpoint 2) } twoPayloads).candidates =
      [hostEndpoint 1, hostEndpoint 3, hostEndpoint 4] ∧
    (peerOutboundRun { oneCandidate with self := some (hostEndpoint 2) }
      twoPayloads.reverse).candidates = [hostEndpoint 1, hostEndpoint 3, hostEndpoint 4] := by
  have hinit : peerOutboundInit [hostEndpoint 1] = .ok oneCandidate := rfl
  have hrun : (peerOutboundRun { oneCandidate with self := some (hostEndpoint 2) }
      twoPayloads).candidates = [hostEndpoint 1, hostEndpoint 3, hostEndpoint 4] := by
    decide +kernel
  obtain ⟨-, -, -, -, -, -, horder⟩ :=
    peer_candidates_kept hinit (some (hostEndpoint 2)) twoPayloads
  refine ⟨hrun, (horder twoPayloads.reverse ?_ ?_).trans hrun⟩
  · exact List.Perm.swap _ _ []
  · decide +kernel

end Sample

end StnChain
