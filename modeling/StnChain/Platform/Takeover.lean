import StnChain.Peer.Complete
import StnChain.Platform.Inbound
import StnChain.Platform.Runtime

/-!
# What a synchronization takes over

Synchronization with the server of an accepted history, whatever the two histories are.  What it
collects has the headers of the served history, with each block served or stored before; a node
that keeps the connection has no less work than the server then, `synchronize_served`.
-/

namespace StnChain

open EarlyExit

section

variable [Primitives]

/-! ## Work -/

/-- The cumulative work of an accepted history. -/
def historyWork (blocks : List Bytes) : ℕ :=
  ((historyHeaders blocks).map headerWork).sum

/-- The header of a block. -/
def headerOf (bytes : Bytes) : Bytes :=
  bytes.take blockHeaderSize

variable {c : ChainContext} {blocks stored : List Bytes} {s t : ChainState} {v : StorageView}

theorem Accepts.work_eq (h : Accepts c blocks s) (hpolicy : c.powPolicy.isSome) :
    s.cumulativeWork.toNat = historyWork blocks := by
  obtain ⟨policy, hpolicy⟩ := Option.isSome_iff_exists.mp hpolicy
  exact ((accepts_iff.mp h).2.targeted hpolicy).work

theorem historyHeaders_eq (h : ∀ bytes ∈ blocks, ∃ b, blockDecode bytes = .ok b) :
    historyHeaders blocks =
      (blocks.map headerOf).filterMap fun header => (blockHeaderDecode header).toOption := by
  induction blocks with
  | nil => rfl
  | cons bytes rest ih =>
      obtain ⟨b, hb⟩ := h bytes List.mem_cons_self
      obtain ⟨-, hheader, -⟩ := blockDecode_eq_ok hb
      have hheader : blockHeaderDecode (headerOf bytes) = .ok b.header := hheader
      have hrest := ih fun bytes' hmem => h bytes' (List.mem_cons_of_mem bytes hmem)
      simp only [historyHeaders] at hrest
      simp only [historyHeaders, List.filterMap_cons, List.map_cons, hb, hheader, hrest]
      rfl

/-- Accepted histories with the same headers have the same work. -/
theorem historyWork_of_headers {taken : List Bytes} (h : Accepts c blocks s)
    (h' : Accepts c taken t) (hheaders : taken.map headerOf = blocks.map headerOf) :
    historyWork taken = historyWork blocks := by
  have hblocks := historyHeaders_eq fun bytes => (accepts_iff.mp h).2.decode_of_mem
  have htaken := historyHeaders_eq fun bytes => (accepts_iff.mp h').2.decode_of_mem
  rw [historyWork, historyWork, hblocks, htaken, hheaders]

/-! ## What a synchronization collects -/

/-- Blocks taken from a served history: their headers are its headers, and each block is one of
it or was stored before. -/
structure TakenFrom (stored blocks taken : List Bytes) : Prop where
  headers : taken.map headerOf = blocks.map headerOf
  origin : ∀ bytes ∈ taken, bytes ∈ stored ∨ bytes ∈ blocks

/-- The block loop before some index: what it has collected is taken from the served history
so far. -/
structure SyncFollows (stored blocks : List Bytes) (n : ℕ)
    (y : SyncState (PeerSession × Bytes)) : Prop where
  idle : Idle y.transport
  length : y.blocks.length = n
  taken : TakenFrom stored (blocks.take n) y.blocks

section Collected

variable {capacity : ℕ} {w : PeerWorkspace c.hashProvider} {y y' : SyncState (PeerSession × Bytes)}
  {n num : ℕ} (hserved : Served c blocks s capacity w.frameCapacity)

include hserved

/-- A round takes a stored block or the served one. -/
theorem Served.syncTake {bytes header taken : Bytes} (hidle : Idle y.transport)
    (hbytes : blocks[y.blocks.length]? = some bytes)
    (h : StnChain.syncTake (servedTransport c blocks capacity) w stored y header =
      .ok (taken, y')) :
    y'.blocks = y.blocks ∧ Idle y'.transport ∧ (taken ∈ stored ∨ taken = bytes) := by
  have hfetch := hserved.syncFetch rfl hidle hbytes
  have hfetched (h : StnChain.syncFetch (servedTransport c blocks capacity) w y = .ok (taken, y')) :
      y'.blocks = y.blocks ∧ Idle y'.transport ∧ (taken ∈ stored ∨ taken = bytes) := by
    obtain ⟨rfl, rfl⟩ := Prod.mk.inj (Except.ok.inj (hfetch.symm.trans h))
    exact ⟨rfl, Idle.answered _, .inr rfl⟩
  unfold StnChain.syncTake at h
  split at h
  · exact hfetched h
  next left hstored =>
  split at h
  · obtain ⟨rfl, rfl⟩ := Prod.mk.inj (Except.ok.inj h)
    exact ⟨rfl, hidle, .inl (List.mem_of_getElem? hstored)⟩
  · exact hfetched h

theorem SyncFollows.step (h : SyncFollows stored blocks n y) {bytes : Bytes}
    (hbytes : blocks[n]? = some bytes)
    (hok : syncBlock c (servedTransport c blocks capacity) w stored y (headerOf bytes) = .ok y') :
    SyncFollows stored blocks (n + 1) y' := by
  unfold syncBlock at hok
  split at hok
  · cases hok
  next taken z htake =>
  obtain ⟨hkept, hidle, horigin⟩ := hserved.syncTake h.idle (by rwa [h.length]) htake
  split at hok
  · cases hok
  next hheader =>
  split at hok
  · cases hok
  split at hok
  · cases hok
  obtain rfl := Except.ok.inj hok
  have hsame : headerOf taken = headerOf bytes := by
    by_contra hne
    exact hheader (.inr hne)
  have hnext : blocks.take (n + 1) = blocks.take n ++ [bytes] := by
    rw [List.take_add_one, hbytes, Option.toList_some]
  refine ⟨hidle, by simp [hkept, h.length], ?_, ?_⟩
  · simp only [hkept, hnext, List.map_append, h.taken.headers, List.map_singleton, hsame]
  · intro block hblock
    rw [hnext]
    rcases List.mem_append.mp hblock with hbefore | hlast
    · rw [hkept] at hbefore
      rcases h.taken.origin block hbefore with hstored | hserved
      · exact .inl hstored
      · exact .inr (List.mem_append_left _ hserved)
    · obtain rfl := List.mem_singleton.mp hlast
      rcases horigin with hstored | rfl
      · exact .inl hstored
      · exact .inr (List.mem_append_right _ List.mem_cons_self)

/-- A page of a served history is the loop over the headers of its blocks. -/
theorem Served.syncPage (hpositive : 0 < num) (hpage : num ≤ 64) (hidle : Idle y.transport)
    (hbound : y.blocks.length + num ≤ blocks.length) :
    StnChain.syncPage c (servedTransport c blocks capacity) w stored y num =
      (((blocks.drop y.blocks.length).take num).map headerOf).foldlM
        (syncBlock c (servedTransport c blocks capacity) w stored)
        { y with transport := (y.transport.1.answered, []) } := by
  generalize hn : y.blocks.length = n at hbound ⊢
  have hexchange := hserved.page hpositive hpage hbound hidle
  obtain ⟨-, hreach⟩ := accepts_iff.mp hserved.accepts
  have hstorable : ∀ bytes ∈ (blocks.drop n).take num, Storable bytes := fun bytes h =>
    hreach.storable bytes (List.mem_of_mem_drop (List.mem_of_mem_take h))
  have hnum : ((blocks.drop n).take num).length = num := by
    rw [List.length_take, List.length_drop, min_eq_left (by omega)]
  have hcount := hserved.count
  have hsize : (wireWrite 4 n ++ wireWrite 4 num ++
      headersBytes ((blocks.drop n).take num)).length = 8 + num * blockHeaderSize := by
    rw [List.length_append, length_headersBytes hstorable, hnum]
    simp
  have hstart : wireRead (wireWrite 4 n ++ wireWrite 4 num ++
      headersBytes ((blocks.drop n).take num)) 0 4 = n := by
    rw [List.append_assoc, wireRead_append_left (by simp)]
    exact wireRead_wireWrite (by omega)
  have hread : wireRead (wireWrite 4 n ++ wireWrite 4 num ++
      headersBytes ((blocks.drop n).take num)) 4 4 = num := by
    rw [List.append_assoc, wireRead_append_right (by simp), wireRead_append_left (by simp)]
    simpa using wireRead_wireWrite (n := 4) (v := num) (by omega)
  have hheaders := pageHeaders_bytes hstorable n num
  rw [hnum] at hheaders
  simp only [StnChain.syncPage, hn, hexchange, hsize, hstart, hread, ne_eq, not_true_eq_false,
    or_self, ↓reduceIte, hheaders]
  rfl

theorem SyncFollows.page (h : SyncFollows stored blocks n y) (hpositive : 0 < num)
    (hpage : num ≤ 64) (hbound : n + num ≤ blocks.length) :
    Ends (fun _ => True) (SyncFollows stored blocks (n + num))
      (syncPage c (servedTransport c blocks capacity) w stored y num) := by
  have hlength := h.length
  rw [hserved.syncPage hpositive hpage h.idle (by rwa [hlength]), hlength]
  have hnum : ((blocks.drop n).take num).length = num := by
    rw [List.length_take, List.length_drop, min_eq_left (by omega)]
  have hend : n + num = n + (((blocks.drop n).take num).map headerOf).length := by
    rw [List.length_map, hnum]
  rw [hend]
  refine Ends.foldlM (I := fun past => SyncFollows stored blocks (n + past.length))
    ⟨Idle.answered _, h.length, h.taken⟩ ?_
  intro past header rest z hsplit hz
  obtain ⟨before, after, hblocks, rfl, hafter⟩ := List.map_eq_append_iff.mp hsplit
  obtain ⟨bytes, rest', rfl, rfl, -⟩ := List.map_eq_cons_iff.mp hafter
  have hbytes : blocks[n + before.length]? = some bytes := by
    have hlt : before.length < num := by
      have hlength := congrArg List.length hblocks
      simp only [hnum, List.length_append, List.length_cons] at hlength
      omega
    rw [← List.getElem?_drop, ← List.getElem?_take_of_lt hlt, hblocks]
    simp
  rw [List.length_map] at hz
  cases hstep : syncBlock c (servedTransport c blocks capacity) w stored z (headerOf bytes) with
  | error report => trivial
  | ok next =>
      have hnext := hz.step hserved hbytes hstep
      simpa [Ends, Nat.add_assoc] using hnext

/-- What a synchronization collects from a served history is taken from it. -/
theorem Served.syncBlocks_taken {recovery : Bool} {x : PeerSession × Bytes} (hx : Idle x)
    (h : StnChain.syncBlocks c (servedTransport c blocks capacity) w stored recovery x = .ok y) :
    Idle y.transport ∧ TakenFrom stored blocks y.blocks := by
  unfold StnChain.syncBlocks at h
  rw [hserved.syncCount rfl hx] at h
  split at h
  · cases h
  next count session hcount =>
  split at hcount
  · cases hcount
  obtain ⟨rfl, rfl⟩ := Prod.mk.inj (Except.ok.inj hcount)
  split at h
  · cases h
  next initial hinit =>
  have hstart : SyncFollows stored blocks 0
      { transport := (x.1.answered, []), recovery, blocks := [], checked := initial,
        matching := true, reused := 0, received := 0 } :=
    ⟨Idle.answered _, rfl, rfl, by simp⟩
  have hpages : Ends (fun _ => True) (SyncFollows stored blocks (pageSizes blocks.length).sum)
      (.ok y : Except PeerReport (SyncState (PeerSession × Bytes))) := by
    rw [← h]
    refine Ends.foldlM (I := fun past => SyncFollows stored blocks past.sum) hstart ?_
    intro past num rest z hsplit hz
    have hsum := pageSizes_sum blocks.length
    rw [hsplit, List.sum_append, List.sum_cons] at hsum
    obtain ⟨hpositive, hpage⟩ :=
      pageSizes_bounds (by simp [hsplit] : num ∈ pageSizes blocks.length)
    have hstep := hz.page hserved hpositive hpage (by omega)
    rwa [List.sum_append, List.sum_singleton]
  rw [pageSizes_sum] at hpages
  have hfollows : SyncFollows stored blocks blocks.length y := hpages
  have htaken := hfollows.taken
  rw [List.take_length] at htaken
  exact ⟨hfollows.idle, htaken⟩

end Collected

end

/-! ## What a synchronization adopts -/

theorem ioStatus_ne_notPreferred (status : StorageStatus) : ioStatus status ≠ .notPreferred := by
  cases status <;> decide

section

variable [Primitives] {c : ChainContext} {σ : Type} {d : StorageDevice σ} {v : StorageView}
  {blocks : List Bytes} {w : StorageWorkspace} {active s : ChainState} {x : σ}

/-- A read of what is stored recovers nothing else, or fails. -/
theorem recoveryLocked_stored {image : Bytes} (himage : d.persisted x = some image)
    (hdecode : storageDecode c image = .ok v) (capacity : ℕ) :
    Ends (fun status => status ≠ .notPreferred) (· = (v, false))
      (recoveryLocked c ⟨.ok (), fun _ => (d.read capacity x).1⟩ capacity) := by
  have hok := d.read_ok capacity x
  have hmissing := d.read_notFound capacity x
  unfold recoveryLocked
  split
  · simp [Ends]
  split
  · simp [Ends]
  dsimp only
  cases hread : (d.read capacity x).1 with
  | error status =>
      dsimp only
      split
      · next hstatus =>
          have hnotFound : status = .notFound := by
            cases status <;> simp_all [ioStatus]
          rw [hmissing (by rw [hread, hnotFound])] at himage
          cases himage
      · exact ioStatus_ne_notPreferred status
  | ok image' =>
      obtain rfl := Option.some.inj ((hok image' hread).symm.trans himage)
      dsimp only
      split
      · simp [Ends]
      · rw [hdecode]
        rfl

omit [Primitives] in
theorem storageDigest_ne_notPreferred (bytes : Bytes) :
    storageDigest c bytes ≠ .error .notPreferred := by
  unfold storageDigest
  split
  · simp
  split
  · simp
  · simp
  · simp

theorem storageEncode_ne_notPreferred (hpolicy : c.powPolicy.isSome) (h : Accepts c blocks s)
    (capacity : ℕ) : storageEncode c blocks capacity ≠ .error .notPreferred := by
  have hvalid := storageValidate_eq_ok_iff.mpr ⟨hpolicy, h⟩
  have hdigest := storageDigest_ne_notPreferred (c := c) (storageSigned blocks)
  unfold storageEncode
  split
  · simp
  rw [hvalid]
  dsimp only
  split
  · simp
  cases hencoded : storageDigest c (storageSigned blocks) with
  | ok digest => simp
  | error status =>
      rw [hencoded] at hdigest
      exact fun hstatus => hdigest (congrArg Except.error (Except.error.inj hstatus))

/-- A history that is not preferred to the stored one has no more work. -/
theorem storageAdoptOn_retained (hstored : Holds c d x v)
    (h : (storageAdoptOn c d blocks w active x).status = .error .notPreferred) :
    ∃ t, Accepts c blocks t ∧ t.cumulativeWork.toNat ≤ v.state.cumulativeWork.toNat := by
  obtain ⟨image, himage, hdecode⟩ := hstored
  obtain ⟨hpolicy, haccepts, -⟩ := storageDecode_image hdecode
  simp only [storageAdoptOn] at h
  split at h
  · next status hvalid =>
      have hstatus : status = .notPreferred := Except.error.inj h
      rw [hstatus] at hvalid
      exact absurd hvalid (by
        unfold storageValidate
        split
        · simp
        split
        · simp
        · split
          · simp
          · simp)
  next candidate hvalid =>
  obtain ⟨-, hcandidate⟩ := storageValidate_eq_ok_iff.mp hvalid
  refine ⟨candidate, hcandidate, ?_⟩
  by_contra hmore
  have hwork : v.state.cumulativeWork < candidate.cumulativeWork :=
    BitVec.lt_def.mpr (Nat.lt_of_not_le hmore)
  have hfork := forkEvaluateHistory_of_work hpolicy haccepts hcandidate hwork
  have hencode := storageEncode_ne_notPreferred hpolicy hcandidate w.nextCapacity
  have hacquire := d.acquire_persisted x
  unfold storageLocked at h
  split at h
  · exact ioStatus_ne_notPreferred _ (Except.error.inj h)
  next x' hx =>
  rw [hx] at hacquire
  have hrecovered := recoveryLocked_stored (hacquire.trans himage) hdecode w.currentCapacity
  dsimp only at h
  split at h
  · next status hstatus =>
      rw [hstatus] at hrecovered
      exact hrecovered (Except.error.inj h)
  next stored recovery hok =>
  rw [hok] at hrecovered
  obtain ⟨rfl, rfl⟩ := Prod.mk.inj hrecovered
  have hprefers : storagePrefers (forkEvaluateHistory c stored.blocks blocks).1
      (forkEvaluateHistory c stored.blocks blocks).2 false = .ok () := by
    simp [storagePrefers, hfork]
  rw [if_neg (accepts_iff.mp haccepts).1, hprefers] at h
  dsimp only [storageCommit] at h
  split at h
  · next status hstatus =>
      rw [hstatus] at hencode
      exact hencode (congrArg Except.error (Except.error.inj h))
  split at h
  · exact ioStatus_ne_notPreferred _ (Except.error.inj h)
  · cases h

end

section

variable [Primitives] {σ : Type} {m : MiningService σ} {v v' : StorageView} {blocks : List Bytes}
  {s : ChainState}

theorem MiningService.Coherent.decoded (h : m.Coherent v) :
    m.chain.powPolicy.isSome ∧ Accepts m.chain v.blocks v.state := by
  obtain ⟨image, -, hdecode⟩ := h.stored
  obtain ⟨hpolicy, haccepts, -⟩ := storageDecode_image hdecode
  exact ⟨hpolicy, haccepts⟩

theorem MiningService.Coherent.work_eq (h : m.Coherent v) :
    v.state.cumulativeWork.toNat = historyWork v.blocks := by
  obtain ⟨hpolicy, haccepts⟩ := h.decoded
  exact haccepts.work_eq hpolicy

/-- What a provider persists is all that coherence asks of it. -/
theorem MiningService.Coherent.withDevice (h : m.Coherent v) {x : σ}
    (hx : m.storage.persisted x = m.storage.persisted m.device) :
    MiningService.Coherent { m with device := x } v where
  stored := by
    obtain ⟨image, himage, hdecode⟩ := h.stored
    exact ⟨image, hx.trans himage, hdecode⟩
  active := h.active

theorem storageRecoveryReadOn_stored {c : ChainContext} {d : StorageDevice σ} {x : σ}
    (h : Holds c d x v) (capacity : ℕ) :
    d.persisted (storageRecoveryReadOn c d capacity x).2 = d.persisted x ∧
      ∀ stored recovery, (storageRecoveryReadOn c d capacity x).1 = .ok (stored, recovery) →
        stored = v := by
  obtain ⟨image, himage, hdecode⟩ := h
  have hacquire := d.acquire_persisted x
  unfold storageRecoveryReadOn
  split
  · next x' hx =>
      rw [hx] at hacquire
      exact ⟨hacquire, by simp⟩
  next x' hx =>
  rw [hx] at hacquire
  split
  · exact ⟨(d.release_persisted x').trans hacquire, by simp⟩
  have hread := d.read_persisted capacity x'
  have hrecovered := recoveryLocked_stored (hacquire.trans himage) hdecode capacity
  refine ⟨(d.release_persisted _).trans (hread.trans hacquire), fun stored recovery hok => ?_⟩
  dsimp only at hok
  rw [hok] at hrecovered
  exact (Prod.mk.inj hrecovered).1

/-- What a synchronization with a server of a history comes to: the node keeps its history or
has taken another from it, and if it keeps the connection it has no less work than the server. -/
structure SyncEffect (v v' : StorageView) (blocks : List Bytes)
    (o : ServiceSync (PeerSession × Bytes) σ) : Prop where
  coherent : o.service.Coherent v'
  advances : v.Advances v'
  taken : v' = v ∨ TakenFrom v.blocks blocks v'.blocks
  kept : ∀ connection, o.connection = some connection →
    Idle connection ∧ historyWork blocks ≤ historyWork v'.blocks

/-- A synchronization that ends early. -/
theorem MiningService.Coherent.ended (h : m.Coherent v) (blocks : List Bytes)
    (report : PeerReport) (capabilities : Option ℕ) :
    SyncEffect v v blocks ⟨report, capabilities, none, m⟩ where
  coherent := h
  advances := .inl rfl
  taken := .inl rfl
  kept := by simp

theorem MiningService.Coherent.adoptSynced (h : m.Coherent v) (haccepts : Accepts m.chain blocks s)
    {y : SyncState (PeerSession × Bytes)} (hidle : Idle y.transport)
    (htaken : TakenFrom v.blocks blocks y.blocks) (workspace : StorageWorkspace)
    (capabilities : Option ℕ) :
    ∃ v', SyncEffect v v' blocks (m.adoptSynced workspace capabilities y) := by
  obtain ⟨hpolicy, hstored⟩ := h.decoded
  have hatomic : (storageAdoptOn m.chain m.storage y.blocks workspace m.active m.device).Atomic
    m.chain m.storage m.active m.device (· = y.blocks) := storageAdoptOn_atomic y.blocks workspace
  unfold MiningService.adoptSynced
  split
  · exact ⟨v, h.ended blocks _ capabilities⟩
  dsimp only
  split
  · next hstatus =>
      have hsame := h.withDevice (hatomic.failed _ hstatus).1
      obtain ⟨t, ht, hle⟩ := storageAdoptOn_retained h.stored hstatus
      refine ⟨v, hsame, .inl rfl, .inl rfl, fun connection hconnection => ?_⟩
      obtain rfl := Option.some.inj hconnection
      rw [h.work_eq, ht.work_eq hpolicy, historyWork_of_headers haccepts ht htaken.headers] at hle
      exact ⟨hidle, hle⟩
  · next _ hstatus =>
      have hsame := h.withDevice (hatomic.failed _ hstatus).1
      exact ⟨v, hsame.ended blocks _ capabilities⟩
  · next hstatus =>
      obtain ⟨image, collected, himage, hdecode, rfl, hpublishes⟩ := hatomic.done hstatus
      obtain ⟨stored, hholds, hdecode'⟩ := h.stored
      have hmore := hpublishes.work stored v hholds hdecode'
      have hnext : Accepts m.chain y.blocks _ := (storageDecode_image hdecode).2.1
      refine ⟨⟨y.blocks, _⟩, ⟨⟨image, himage, hdecode⟩, rfl⟩, .inr hmore, .inr htaken,
        fun connection hconnection => ?_⟩
      obtain rfl := Option.some.inj hconnection
      exact ⟨hidle, (historyWork_of_headers haccepts hnext htaken.headers).ge⟩

/-- A connection on which nothing is undelivered, before its greeting or after. -/
def Waits (greeted : Bool) (x : PeerSession × Bytes) : Prop :=
  x.1.handshake = (if greeted then .established else .awaited) ∧ x.2 = []

/-- A synchronization with a server of an accepted history. -/
theorem MiningService.Coherent.synchronize_served (h : m.Coherent v)
    {input : SyncInput (PeerSession × Bytes)} {capacity : ℕ}
    (htransport : input.transport = servedTransport m.chain blocks capacity)
    (hserved : Served m.chain blocks s capacity input.frameCapacity)
    (hwaits : Waits input.established input.connection) :
    ∃ v', SyncEffect v v' blocks (m.synchronize input) := by
  obtain ⟨hpersisted, hview⟩ :=
    storageRecoveryReadOn_stored h.stored input.workspace.currentCapacity
  have hcollect {device : σ} (hdevice : MiningService.Coherent { m with device } v)
      (recovery : Bool) (capabilities : Option ℕ) {x : PeerSession × Bytes} (hx : Idle x) :
      ∃ v', SyncEffect v v' blocks
        (MiningService.collect { m with device } input v recovery capabilities x) := by
    unfold MiningService.collect
    dsimp only
    split
    · exact ⟨v, hdevice.ended blocks _ capabilities⟩
    next y hy =>
    rw [htransport] at hy
    obtain ⟨hidle, htaken⟩ := hserved.syncBlocks_taken hx hy
    exact hdevice.adoptSynced hserved.accepts hidle htaken _ capabilities
  unfold MiningService.synchronize
  split
  · next status device hread =>
      rw [hread] at hpersisted
      exact ⟨v, (h.withDevice hpersisted).ended blocks _ none⟩
  next stored recovery device hread =>
  rw [hread] at hpersisted hview
  obtain rfl := hview stored recovery rfl
  have hdevice := h.withDevice hpersisted
  obtain ⟨hhandshake, hnothing⟩ := hwaits
  dsimp only
  split
  · next hgreeted =>
      rw [if_pos hgreeted] at hhandshake
      exact hcollect hdevice recovery none ⟨hhandshake, hnothing⟩
  next hnew =>
  rw [if_neg hnew] at hhandshake
  obtain ⟨capabilities, hgreet⟩ := hserved.syncGreet (w := ⟨input.workspace,
    input.candidateCapacity, input.frameCapacity, none⟩) rfl hhandshake
  have hconnection : input.connection = (input.connection.1, []) := Prod.ext rfl hnothing
  rw [htransport, hconnection, hgreet]
  exact hcollect hdevice recovery (some capabilities) (Idle.answered _)

end

section

variable [Primitives] {σ : Type} {m : MiningService σ} {v : StorageView}

/-- Nothing is exchanged with a server of no blocks. -/
theorem peerExchange_nil (c : ChainContext) (frameCapacity : ℕ) (type expected : PeerType)
    (payload : Bytes) {x : PeerSession × Bytes} (hx : x.2 = []) :
    ∃ status, peerExchange (servedTransport c [] peerMaxFrame) frameCapacity type payload expected
      x = .error status := by
  unfold peerExchange
  split
  · exact ⟨_, rfl⟩
  next request _ =>
  have hrefused := serveAnswer_nil c request x.1
  have hsend : ∃ session,
      (servedTransport c [] peerMaxFrame).send request x = .ok (session, []) := by
    simp only [servedTransport]
    simp only [serveAnswer] at hrefused
    split
    · next session status _ => exact ⟨session, by rw [hx]⟩
    · next session frame hserved =>
        rw [hserved] at hrefused
        cases hrefused
  obtain ⟨session, hsend⟩ := hsend
  rw [hsend]
  dsimp only
  unfold peerReceive
  split
  · next status hreceive => exact ⟨status, rfl⟩
  next frame y hreceive =>
  split at hreceive
  · cases hreceive
  · simp [servedTransport, peerHeaderSize] at hreceive

/-- A synchronization with a server of no blocks ends early. -/
theorem MiningService.Coherent.synchronize_nil (h : m.Coherent v)
    {input : SyncInput (PeerSession × Bytes)}
    (htransport : input.transport = servedTransport m.chain [] peerMaxFrame)
    (hwaits : Waits input.established input.connection) :
    ∃ v', SyncEffect v v' [] (m.synchronize input) := by
  obtain ⟨hpersisted, -⟩ := storageRecoveryReadOn_stored h.stored input.workspace.currentCapacity
  have hcollect {device : σ} (hdevice : MiningService.Coherent { m with device } v)
      (stored : StorageView) (recovery : Bool) (capabilities : Option ℕ)
      {x : PeerSession × Bytes} (hx : x.2 = []) :
      ∃ v', SyncEffect v v' []
        (MiningService.collect { m with device } input stored recovery capabilities x) := by
    unfold MiningService.collect
    dsimp only
    rw [htransport]
    obtain ⟨status, hstatus⟩ :=
      peerExchange_nil m.chain input.frameCapacity .state .state [] hx
    simp only [syncBlocks, syncCount, hstatus]
    exact ⟨v, hdevice.ended [] _ capabilities⟩
  unfold MiningService.synchronize
  split
  · next status device hread =>
      rw [hread] at hpersisted
      exact ⟨v, (h.withDevice hpersisted).ended [] _ none⟩
  next stored recovery device hread =>
  rw [hread] at hpersisted
  have hdevice := h.withDevice hpersisted
  dsimp only
  split
  · exact hcollect hdevice stored recovery none hwaits.2
  split
  · exact ⟨v, hdevice.ended [] _ none⟩
  next capabilities connection hgreet =>
  unfold syncGreet at hgreet
  split at hgreet
  · cases hgreet
  next greeting _ =>
  obtain ⟨status, hstatus⟩ :=
    peerExchange_nil m.chain input.frameCapacity .hello .hello greeting hwaits.2
  rw [htransport, hstatus] at hgreet
  cases hgreet

end

end StnChain
