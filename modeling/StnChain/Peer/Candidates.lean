import StnChain.Peer.Serve
import StnChain.Support.BoundedSet
import StnChain.Support.FixedWidth

/-!
# The candidates of a peer

The set of endpoints a node may connect to, and how a discovery payload extends it
(`stn_peer_candidate_add`, `stn_peer_discovery_admit` of `stn_peer.c`).  The payload is read
into a set of its own first; what it offers is then admitted to a bounded set as one batch,
`admitted_eq`.
-/

namespace StnChain

open FixedWidth

/-! ## The operations -/

/-- The check of its entries that each operation on a set makes. -/
def candidatesOrdered (set : List PeerEndpoint) : Bool :=
  set.all endpointValid && (set.zip set.tail).all fun p => p.1.before p.2

/-- `stn_peer_candidate_add`; a known endpoint is `STN_PEER_RETAINED`. -/
def peerCandidateAdd (set : List PeerEndpoint) (endpoint : PeerEndpoint) :
    Except PeerStatus (List PeerEndpoint) :=
  if set.length > peerCandidateMax then .error .argument
  else if !endpointValid endpoint then .error .argument
  else if !candidatesOrdered set then .error .argument
  else
    let position := set.findIdx fun p => !p.before endpoint
    if set[position]? = some endpoint then .error .retained
    else if set.length = peerCandidateMax then .error .capacity
    else .ok (set.take position ++ endpoint :: set.drop position)

/-- The loops of `stn_peer_discovery_admit`: endpoints are added, known ones passed over. -/
def peerCandidatesMerge (set : List PeerEndpoint) :
    List PeerEndpoint → Except PeerStatus (List PeerEndpoint)
  | [] => .ok set
  | endpoint :: rest =>
      match peerCandidateAdd set endpoint with
      | .ok set => peerCandidatesMerge set rest
      | .error .retained => peerCandidatesMerge set rest
      | .error status => .error status

/-- How an endpoint is sent. -/
def endpointFormat : RowFormat PeerEndpoint where
  width := 6
  put p := octetBytes p.address ++ wireWrite 2 p.port.toNat
  get p at' := ⟨octetsAt p at' 4, UInt16.ofNat (wireRead p (at' + 4) 2)⟩

/-- `stn_peer_discovery_admit`; a set is replaced only on success. -/
def peerDiscoveryAdmit (set : List PeerEndpoint) (self : Option PeerEndpoint) (payload : Bytes) :
    Except PeerStatus (List PeerEndpoint) :=
  if !self.all endpointValid then .error .argument
  else if payload.length < 2 ∨ payload.length > peerDiscoveryMax then .error .protocol
  else
    let count := wireRead payload 0 2
    if count > peerCandidateMax ∨ payload.length ≠ 2 + count * 6 then .error .protocol
    else
      match peerCandidatesMerge [] (endpointFormat.read payload 2 count) with
      | .error _ => .error .protocol
      | .ok ordered =>
          if set.length > peerCandidateMax then .error .argument
          else if !candidatesOrdered set then .error .argument
          else peerCandidatesMerge set (ordered.filter fun p => self ≠ some p)

/-- The set after a payload was offered to it. -/
def admitted (set : List PeerEndpoint) (self : Option PeerEndpoint) (payload : Bytes) :
    List PeerEndpoint :=
  match peerDiscoveryAdmit set self payload with
  | .ok set => set
  | .error _ => set

/-! ## The order of endpoints -/

/-- `endpoint_order` compares these. -/
def endpointKey (p : PeerEndpoint) : ℕ :=
  p.address.toNat * 2 ^ 16 + p.port.toNat

theorem endpointKey_injective : Function.Injective endpointKey := by
  intro a b h
  have hportA := a.port.toNat_lt
  have hportB := b.port.toNat_lt
  simp only [endpointKey] at h
  have haddress : a.address.toNat = b.address.toNat := by omega
  have hport : a.port.toNat = b.port.toNat := by omega
  rw [PeerEndpoint.mk.injEq]
  exact ⟨BitVec.eq_of_toNat_eq haddress, UInt16.toNat_inj.mp hport⟩

theorem PeerEndpoint.before_iff (a b : PeerEndpoint) :
    a.before b = true ↔ endpointKey a < endpointKey b := by
  have hportA := a.port.toNat_lt
  have hportB := b.port.toNat_lt
  simp only [PeerEndpoint.before, endpointKey, Bool.or_eq_true, Bool.and_eq_true,
    decide_eq_true_eq, BitVec.lt_def, UInt16.lt_iff_toNat_lt, ← BitVec.toNat_inj]
  omega

theorem all_zip_tail_iff {α : Type} (r : α → α → Bool) (l : List α) :
    (l.zip l.tail).all (fun p => r p.1 p.2) = true ↔ l.IsChain (fun a b => r a b = true) := by
  induction l with
  | nil => simp
  | cons a rest ih =>
      cases rest with
      | nil => simp
      | cons b rest =>
          rw [List.tail_cons, List.zip_cons_cons, List.all_cons, Bool.and_eq_true,
            List.isChain_cons_cons]
          exact and_congr_right' ih

/-- A set as `stn_peer_candidate_add` leaves it. -/
structure CandidateSet (set : List PeerEndpoint) : Prop where
  kept : BoundedSet.Kept endpointKey peerCandidateMax set
  valid : ∀ p ∈ set, endpointValid p = true

theorem candidatesOrdered_iff (set : List PeerEndpoint) :
    candidatesOrdered set = true ↔
      (∀ p ∈ set, endpointValid p = true) ∧ SortedTable.Sorted endpointKey set := by
  have htrans : Trans (fun a b : PeerEndpoint => endpointKey a < endpointKey b)
      (fun a b => endpointKey a < endpointKey b) fun a b => endpointKey a < endpointKey b :=
    ⟨lt_trans⟩
  rw [candidatesOrdered, Bool.and_eq_true, List.all_eq_true, all_zip_tail_iff]
  simp only [PeerEndpoint.before_iff]
  rw [List.isChain_iff_pairwise]
  exact Iff.rfl

theorem CandidateSet.ordered {set : List PeerEndpoint} (h : CandidateSet set) :
    candidatesOrdered set = true :=
  (candidatesOrdered_iff set).mpr ⟨h.valid, h.kept.sorted⟩

/-! ## One endpoint -/

/-- The scan for the place of an endpoint parts the set as its order does. -/
theorem scan_eq (set : List PeerEndpoint) (endpoint : PeerEndpoint) :
    set.take (set.findIdx fun p => !p.before endpoint) =
        SortedTable.below endpointKey (endpointKey endpoint) set ∧
      set.drop (set.findIdx fun p => !p.before endpoint) =
        SortedTable.above endpointKey (endpointKey endpoint) set := by
  have hbefore : (fun p : PeerEndpoint => p.before endpoint) =
      fun p => decide (endpointKey p < endpointKey endpoint) := by
    funext p
    rw [Bool.eq_iff_iff, PeerEndpoint.before_iff, decide_eq_true_eq]
  have htake : set.takeWhile (fun p => p.before endpoint) =
      set.take (set.findIdx fun p => !p.before endpoint) := List.takeWhile_eq_take_findIdx_not
  have hdrop : set.dropWhile (fun p => p.before endpoint) =
      set.drop (set.findIdx fun p => !p.before endpoint) := List.dropWhile_eq_drop_findIdx_not
  rw [← htake, ← hdrop, hbefore]
  exact ⟨rfl, rfl⟩

/-- The scan stops at the endpoint exactly when it is in the set. -/
theorem scan_stops_iff {set : List PeerEndpoint} (h : CandidateSet set)
    (endpoint : PeerEndpoint) :
    set[set.findIdx fun p => !p.before endpoint]? = some endpoint ↔ endpoint ∈ set := by
  constructor
  · exact fun hstop => List.mem_of_getElem? hstop
  · intro hmem
    have hstop := h.kept.sorted.getElem?_length_below hmem
    rwa [← (scan_eq set endpoint).1, List.length_take,
      min_eq_left (List.findIdx_le_length)] at hstop

theorem peerCandidateAdd_eq {set : List PeerEndpoint} (h : CandidateSet set)
    {endpoint : PeerEndpoint} (hvalid : endpointValid endpoint = true) :
    peerCandidateAdd set endpoint =
      if endpoint ∈ set then .error .retained
      else if set.length = peerCandidateMax then .error .capacity
      else .ok (SortedTable.insert endpointKey endpoint set) := by
  obtain ⟨htake, hdrop⟩ := scan_eq set endpoint
  simp only [peerCandidateAdd, hvalid, h.ordered, Bool.not_true, Bool.false_eq_true, if_false,
    if_neg (not_lt.mpr h.kept.within), scan_stops_iff h, htake, hdrop]
  exact rfl

/-! ## Many endpoints -/

theorem CandidateSet.insert {set : List PeerEndpoint} (h : CandidateSet set)
    {endpoint : PeerEndpoint} (hvalid : endpointValid endpoint = true) (hnew : endpoint ∉ set)
    (hroom : set.length ≠ peerCandidateMax) :
    CandidateSet (SortedTable.insert endpointKey endpoint set) where
  kept := h.kept.insert endpointKey_injective hnew hroom
  valid := by
    intro p hp
    rcases SortedTable.mem_insert.mp hp with rfl | hp
    · exact hvalid
    · exact h.valid p hp

/-- Usable endpoints are added while there is room. -/
theorem peerCandidatesMerge_eq {set items : List PeerEndpoint} (h : CandidateSet set)
    (hvalid : ∀ p ∈ items, endpointValid p = true) :
    peerCandidatesMerge set items =
      match BoundedSet.addAll endpointKey peerCandidateMax set items with
      | some set => .ok set
      | none => .error .capacity := by
  induction items generalizing set with
  | nil => exact rfl
  | cons endpoint rest ih =>
      obtain ⟨hendpoint, hrest⟩ := List.forall_mem_cons.mp hvalid
      simp only [peerCandidatesMerge, peerCandidateAdd_eq h hendpoint, BoundedSet.addAll,
        BoundedSet.add]
      by_cases hmem : endpoint ∈ set
      · simp only [if_pos hmem]
        exact ih h hrest
      · by_cases hfull : set.length = peerCandidateMax
        · simp only [if_neg hmem, if_pos hfull]
        · simp only [if_neg hmem, if_neg hfull]
          exact ih (h.insert hendpoint hmem hfull) hrest

theorem peerCandidateAdd_unusable (set : List PeerEndpoint) {endpoint : PeerEndpoint}
    (hbad : ¬ endpointValid endpoint = true) :
    peerCandidateAdd set endpoint = .error .argument := by
  have hrefused : (!endpointValid endpoint) = true := by
    rw [Bool.not_eq_true', Bool.eq_false_iff]
    exact hbad
  rw [peerCandidateAdd, if_pos hrefused, ite_self]

/-- An unusable endpoint stops the loop. -/
theorem peerCandidatesMerge_error {set items : List PeerEndpoint} {endpoint : PeerEndpoint}
    (hmem : endpoint ∈ items) (hbad : ¬ endpointValid endpoint = true) :
    ∃ status, peerCandidatesMerge set items = .error status := by
  induction items generalizing set with
  | nil => exact absurd hmem List.not_mem_nil
  | cons first rest ih =>
      rw [peerCandidatesMerge]
      rcases List.mem_cons.mp hmem with rfl | hmem
      · rw [peerCandidateAdd_unusable set hbad]
        exact ⟨_, rfl⟩
      · split
        · exact ih hmem
        · exact ih hmem
        · exact ⟨_, rfl⟩

/-! ## Payloads -/

/-- The endpoints of a well-formed payload. -/
def discoveryEndpoints (payload : Bytes) : Option (List PeerEndpoint) :=
  let count := wireRead payload 0 2
  let endpoints := endpointFormat.read payload 2 count
  if payload.length = 2 + count * 6 ∧ count ≤ peerCandidateMax ∧
      ∀ p ∈ endpoints, endpointValid p = true then
    some endpoints
  else none

/-- What a payload offers a node. -/
def offered (self : Option PeerEndpoint) (payload : Bytes) : List PeerEndpoint :=
  if self.all endpointValid then
    ((discoveryEndpoints payload).getD []).filter fun p => self ≠ some p
  else []

/-- Reading a well-formed payload never runs out of room. -/
theorem discovery_staged {endpoints : List PeerEndpoint}
    (hcount : endpoints.length ≤ peerCandidateMax)
    (hvalid : ∀ p ∈ endpoints, endpointValid p = true) :
    ∃ ordered, peerCandidatesMerge [] endpoints = .ok ordered ∧
      ∀ p, p ∈ ordered ↔ p ∈ endpoints := by
  have hempty : CandidateSet [] := ⟨.nil, fun _ hp => absurd hp List.not_mem_nil⟩
  have hfits : ([] ++ endpoints).toFinset.card ≤ peerCandidateMax :=
    (List.toFinset_card_le _).trans hcount
  obtain ⟨ordered, hadd⟩ := Option.isSome_iff_exists.mp
    ((BoundedSet.addAll_isSome_iff endpointKey_injective hempty.kept endpoints).mpr hfits)
  refine ⟨ordered, ?_, (BoundedSet.addAll_eq_some endpointKey_injective hempty.kept hadd).2⟩
  rw [peerCandidatesMerge_eq hempty hvalid, hadd]

theorem peerDiscoveryAdmit_eq {set : List PeerEndpoint} (h : CandidateSet set)
    (self : Option PeerEndpoint) (payload : Bytes) :
    peerDiscoveryAdmit set self payload =
      if !self.all endpointValid then .error .argument
      else
        match discoveryEndpoints payload with
        | none => .error .protocol
        | some endpoints =>
            match BoundedSet.addAll endpointKey peerCandidateMax set
              (endpoints.filter fun p => self ≠ some p) with
            | some set => .ok set
            | none => .error .capacity := by
  simp only [peerDiscoveryAdmit]
  by_cases hself : (!self.all endpointValid) = true
  · rw [if_pos hself, if_pos hself]
  rw [if_neg hself, if_neg hself]
  by_cases hform : payload.length = 2 + wireRead payload 0 2 * 6 ∧
      wireRead payload 0 2 ≤ peerCandidateMax
  · obtain ⟨hlength, hcount⟩ := hform
    have hsize : ¬(payload.length < 2 ∨ payload.length > peerDiscoveryMax) := by
      rw [peerDiscoveryMax]
      omega
    have hagrees : ¬(wireRead payload 0 2 > peerCandidateMax ∨
        payload.length ≠ 2 + wireRead payload 0 2 * 6) :=
      not_or.mpr ⟨not_lt.mpr hcount, not_not.mpr hlength⟩
    rw [if_neg hsize, if_neg hagrees]
    by_cases hvalid : ∀ p ∈ endpointFormat.read payload 2 (wireRead payload 0 2),
        endpointValid p = true
    · obtain ⟨ordered, hmerge, hmem⟩ :=
        discovery_staged ((RowFormat.length_read _ _ _).trans_le hcount) hvalid
      have hfilter : ∀ p, (p ∈ ordered.filter fun p => self ≠ some p) ↔
          p ∈ (endpointFormat.read payload 2 (wireRead payload 0 2)).filter
            fun p => self ≠ some p := by
        intro p
        rw [List.mem_filter, List.mem_filter, hmem]
      have husable : ∀ p ∈ ordered.filter fun p => self ≠ some p, endpointValid p = true :=
        fun p hp => hvalid p ((hmem p).mp (List.mem_of_mem_filter hp))
      have hsome : discoveryEndpoints payload =
          some (endpointFormat.read payload 2 (wireRead payload 0 2)) :=
        if_pos ⟨hlength, hcount, hvalid⟩
      simp only [hsome, hmerge, if_neg (not_lt.mpr h.kept.within), h.ordered, Bool.not_true,
        Bool.false_eq_true, if_false, peerCandidatesMerge_eq h husable,
        BoundedSet.addAll_congr endpointKey_injective h.kept hfilter]
    · have hnone : discoveryEndpoints payload = none := if_neg fun hall => hvalid hall.2.2
      simp only [not_forall] at hvalid
      obtain ⟨p, hp, hbad⟩ := hvalid
      obtain ⟨status, hmerge⟩ : ∃ status, peerCandidatesMerge [] _ = .error status :=
        peerCandidatesMerge_error hp hbad
      simp only [hnone, hmerge]
  · have hnone : discoveryEndpoints payload = none :=
      if_neg fun hall => hform ⟨hall.1, hall.2.1⟩
    rw [hnone]
    by_cases hsize : payload.length < 2 ∨ payload.length > peerDiscoveryMax
    · rw [if_pos hsize]
    · rw [if_neg hsize]
      refine if_pos ?_
      by_contra hagrees
      obtain ⟨hcount, hlength⟩ := not_or.mp hagrees
      exact hform ⟨not_not.mp hlength, not_lt.mp hcount⟩

/-- A payload is offered to the set as one batch. -/
theorem admitted_eq {set : List PeerEndpoint} (h : CandidateSet set)
    (self : Option PeerEndpoint) (payload : Bytes) :
    admitted set self payload =
      BoundedSet.offer endpointKey peerCandidateMax set (offered self payload) := by
  rw [admitted, peerDiscoveryAdmit_eq h, offered, BoundedSet.offer]
  by_cases hself : self.all endpointValid = true
  · rw [if_pos hself, hself, Bool.not_true, if_neg Bool.false_ne_true]
    cases hpayload : discoveryEndpoints payload with
    | none => exact rfl
    | some endpoints =>
        rw [Option.getD_some]
        simp only
        cases BoundedSet.addAll endpointKey peerCandidateMax set
          (endpoints.filter fun p => self ≠ some p) with
        | none => exact rfl
        | some added => exact rfl
  · have hbad : (!self.all endpointValid) = true := by
      rw [Bool.not_eq_true', Bool.eq_false_iff]
      exact hself
    rw [if_neg hself, if_pos hbad]
    exact rfl

/-- What is offered is usable and is not the node itself. -/
theorem of_mem_offered {self : Option PeerEndpoint} {payload : Bytes} {p : PeerEndpoint}
    (h : p ∈ offered self payload) : endpointValid p = true ∧ self ≠ some p := by
  rw [offered] at h
  split at h
  · obtain ⟨hp, hself⟩ := List.mem_filter.mp h
    refine ⟨?_, of_decide_eq_true hself⟩
    rw [discoveryEndpoints] at hp
    split at hp
    next hform => exact hform.2.2 p hp
    next => exact absurd hp List.not_mem_nil
  · exact absurd h List.not_mem_nil

theorem CandidateSet.admitted {set : List PeerEndpoint} (h : CandidateSet set)
    (self : Option PeerEndpoint) (payload : Bytes) :
    CandidateSet (admitted set self payload) where
  kept := by
    rw [admitted_eq h]
    exact h.kept.offer endpointKey_injective _
  valid := by
    intro p hp
    rw [admitted_eq h] at hp
    rcases List.mem_append.mp ((BoundedSet.mem_offer endpointKey_injective h.kept).2 hp)
      with hp | hp
    · exact h.valid p hp
    · exact (of_mem_offered hp).1

/-- Candidates are never removed. -/
theorem length_le_admitted {set : List PeerEndpoint} (h : CandidateSet set)
    (self : Option PeerEndpoint) (payload : Bytes) :
    set.length ≤ (admitted set self payload).length := by
  have hsubset : set ⊆ admitted set self payload := by
    intro p hp
    rw [admitted_eq h]
    exact (BoundedSet.mem_offer endpointKey_injective h.kept).1 hp
  exact (List.subperm_of_subset h.kept.nodup hsubset).length_le

/-! ## Encoded sets -/

theorem endpointFormat_lawful : endpointFormat.Lawful where
  length_put p := by
    simp [endpointFormat]
  get_put pre p post := by
    have haddress : octetsAt (pre ++ (octetBytes p.address ++ wireWrite 2 p.port.toNat ++ post))
        pre.length 4 = p.address := by
      rw [octetsAt_append_right le_rfl, Nat.sub_self, List.append_assoc,
        octetsAt_append_left (by simp), octetsAt_octetBytes]
    have hport : wireRead (pre ++ (octetBytes p.address ++ wireWrite 2 p.port.toNat ++ post))
        (pre.length + 4) 2 = p.port.toNat := by
      rw [wireRead_append_right (Nat.le_add_right _ _), Nat.add_sub_cancel_left, List.append_assoc,
        wireRead_append_right (by simp), length_octetBytes, Nat.sub_self,
        wireRead_append_left (by simp), wireRead_wireWrite (by simpa using p.port.toNat_lt)]
    simp only [endpointFormat, haddress, hport, UInt16.ofNat_toNat]
  put_get p off h := by
    simp only [endpointFormat] at h ⊢
    rw [toNat_ofNat_wireRead_two, octetBytes_octetsAt (by omega), wireWrite_wireRead (by omega),
      BigEndian.field_append_field]

/-- A payload is read as the endpoints it was made of. -/
theorem discoveryEndpoints_discoveryBytes {endpoints : List PeerEndpoint}
    (hcount : endpoints.length ≤ peerCandidateMax)
    (hvalid : ∀ p ∈ endpoints, endpointValid p = true) :
    discoveryEndpoints (discoveryBytes endpoints) = some endpoints := by
  have hbytes : discoveryBytes endpoints =
      wireWrite 2 endpoints.length ++ (endpointFormat.write endpoints ++ []) := by
    rw [List.append_nil]
    exact rfl
  have hread : wireRead (discoveryBytes endpoints) 0 2 = endpoints.length := by
    rw [hbytes, wireRead_append_left (by simp), wireRead_wireWrite]
    exact hcount.trans_lt (by decide)
  have hlength : (discoveryBytes endpoints).length = 2 + endpoints.length * 6 := by
    rw [length_discoveryBytes, Nat.mul_comm]
  have hrows : endpointFormat.read (discoveryBytes endpoints) 2 endpoints.length = endpoints := by
    have hrows := endpointFormat_lawful.read_write (wireWrite 2 endpoints.length) endpoints []
    rwa [← hbytes, length_wireWrite] at hrows
  simp only [discoveryEndpoints, hread, hrows]
  exact if_pos ⟨hlength, hcount, hvalid⟩

/-- An encoded set is read as its members but the encoder. -/
theorem discoveryEndpoints_encoded {set : List PeerEndpoint} {encoder : Option PeerEndpoint}
    {capacity : ℕ} {payload : Bytes} (h : peerDiscoveryEncode set encoder capacity = .ok payload) :
    discoveryEndpoints payload = some (set.filter fun p => encoder ≠ some p) := by
  simp only [peerDiscoveryEncode] at h
  split at h
  · cases h
  next hcount =>
  split at h
  · cases h
  next hordered =>
  split at h
  · cases h
  obtain rfl := Except.ok.inj h
  have hvalid : set.all endpointValid = true := by
    simpa using (not_or.mp hordered).1
  refine discoveryEndpoints_discoveryBytes ?_ fun p hp =>
    List.all_eq_true.mp hvalid p (List.mem_of_mem_filter hp)
  exact (List.length_filter_le _ _).trans (not_lt.mp (not_or.mp hcount).1)

/-- Admitting an encoded set adds its members but the encoder and the receiver, if they fit. -/
theorem CandidateSet.admit_encoded {known : List PeerEndpoint} (h : CandidateSet known)
    {set : List PeerEndpoint} {encoder self : Option PeerEndpoint} {capacity : ℕ}
    {payload : Bytes} (hencode : peerDiscoveryEncode set encoder capacity = .ok payload) :
    ((∃ known', peerDiscoveryAdmit known self payload = .ok known') ↔
      self.all endpointValid = true ∧
        (known ++ set.filter fun p => encoder ≠ some p ∧ self ≠ some p).toFinset.card ≤
          peerCandidateMax) ∧
    ∀ known', peerDiscoveryAdmit known self payload = .ok known' →
      ∀ p, p ∈ known' ↔ p ∈ known ∨ (p ∈ set ∧ encoder ≠ some p ∧ self ≠ some p) := by
  have hsame : ((set.filter fun p => encoder ≠ some p).filter fun p => self ≠ some p) =
      set.filter fun p => encoder ≠ some p ∧ self ≠ some p := by
    rw [List.filter_filter]
    refine List.filter_congr fun p _ => ?_
    rw [Bool.and_comm, ← Bool.decide_and]
  have hresult := peerDiscoveryAdmit_eq h self payload
  simp only [discoveryEndpoints_encoded hencode, hsame] at hresult
  rw [← BoundedSet.addAll_isSome_iff endpointKey_injective h.kept, hresult]
  by_cases hself : self.all endpointValid = true
  · rw [hself, Bool.not_true, if_neg Bool.false_ne_true, and_iff_right rfl]
    cases hadd : BoundedSet.addAll endpointKey peerCandidateMax known
      (set.filter fun p => encoder ≠ some p ∧ self ≠ some p) with
    | none =>
        exact ⟨iff_of_false (fun ⟨_, hok⟩ => nomatch hok) Bool.false_ne_true,
          fun _ hok => nomatch hok⟩
    | some added =>
        refine ⟨iff_of_true ⟨added, rfl⟩ rfl, fun known' hok p => ?_⟩
        obtain rfl := Except.ok.inj hok
        rw [(BoundedSet.addAll_eq_some endpointKey_injective h.kept hadd).2, List.mem_append,
          List.mem_filter, decide_eq_true_eq]
  · have hbad : (!self.all endpointValid) = true := by
      rw [Bool.not_eq_true', Bool.eq_false_iff]
      exact hself
    rw [if_pos hbad]
    exact ⟨iff_of_false (fun ⟨_, hok⟩ => nomatch hok) fun hall => hself hall.1,
      fun _ hok => nomatch hok⟩

end StnChain
