import StnChain.Persistence

/-!
# The storage cache

Loads of the stored history that validate it only when it has changed (`stn_storage_cache.c`,
`stn_peer_snapshot.c`).  The cache keeps the octets of a validated image with the spans of its
blocks and its state, and a load whose octets and context are the kept ones copies them.  Over
every run the cached load is the plain one, `cached_load_exact`.
-/

namespace StnChain

section

variable [Primitives] {κ σ : Type}

/-! ## The cache -/

/-- A block of an image: where it starts and how long it is. -/
abbrev BlockSpan : Type := ℕ × ℕ

/-- The octets of a span. -/
def spanBytes (image : Bytes) (span : BlockSpan) : Bytes :=
  (image.drop span.1).take span.2

/-- `stn_storage_cache` that is not released.  The context is known by its octets, that is by
what it points to and not by what stands there. -/
structure StorageCache (κ : Type) where
  bytes : Bytes
  blocks : List BlockSpan
  state : ChainState
  context : κ

/-- Which allocations of a call succeed: those of `copy_view`, those of
`stn_storage_cache_remember` and those of `stn_peer_snapshot_load`. -/
structure CacheMemory where
  copies : Bool
  remembers : Bool
  snapshots : Bool

/-- The block loop of `stn_storage_cache_remember`, with the offset it ends at. -/
def cacheSpans (image : Bytes) : ℕ → ℕ → Option (List BlockSpan × ℕ)
  | 0, offset => some ([], offset)
  | count + 1, offset =>
      if offset > image.length - 32 ∨ image.length - 32 - offset < 4 then none
      else
        let length := wireRead image offset 4
        if length < blockHeaderSize ∨ length > blockMaxSize ∨
            length > image.length - 32 - (offset + 4) then none
        else
          (cacheSpans image count (offset + 4 + length)).map
            fun rest => ((offset + 4, length) :: rest.1, rest.2)

/-- `stn_storage_cache_remember`. -/
def cacheRemember (memory : CacheMemory) (context : κ) (image : Bytes) (state : ChainState) :
    Option (StorageCache κ) :=
  if image.length < storageOverhead then none
  else
    let count := wireRead image 8 4
    if count = 0 ∨ count > (image.length - storageOverhead) / storedBlockMin then none
    else
      match cacheSpans image count 12 with
      | none => none
      | some (blocks, offset) =>
          if offset ≠ image.length - 32 ∨ !memory.remembers then none
          else some ⟨image, blocks, state, context⟩

/-- `copy_view`, with the copied spans read in the scratch octets. -/
def copyView (memory : CacheMemory) (cache : StorageCache κ) (scratch : Bytes) :
    Except StorageStatus StorageView :=
  if memory.copies then .ok ⟨cache.blocks.map (spanBytes scratch), cache.state⟩
  else .error .capacity

/-- What a cached load leaves. -/
structure CachedLoad (κ σ : Type) where
  result : Except StorageStatus StorageView
  cache : Option (StorageCache κ)
  device : σ

/-- `stn_storage_cache_load_locked`; `designates` is what the contexts stand for. -/
def cacheLoadLocked [DecidableEq κ] (designates : κ → ChainContext) (d : StorageDevice σ)
    (context : κ) (capacity : ℕ) (memory : CacheMemory) (cache : Option (StorageCache κ)) (x : σ) :
    CachedLoad κ σ :=
  match d.read capacity x with
  | (.error status, x) => ⟨.error status, cache, x⟩
  | (.ok scratch, x) =>
      if scratch.length > capacity then ⟨.error .io, cache, x⟩
      else
        match cache.filter fun cache => cache.context = context ∧ cache.bytes = scratch with
        | some kept => ⟨copyView memory kept scratch, cache, x⟩
        | none =>
            match storageDecode (designates context) scratch with
            | .error status => ⟨.error status, none, x⟩
            | .ok view => ⟨.ok view, cacheRemember memory context scratch view.state, x⟩

/-- `stn_storage_cache_load`. -/
def cacheLoad [DecidableEq κ] (designates : κ → ChainContext) (d : StorageDevice σ) (context : κ)
    (capacity : ℕ) (memory : CacheMemory) (cache : Option (StorageCache κ)) (x : σ) :
    CachedLoad κ σ :=
  match d.acquire x with
  | (.error status, x) => ⟨.error status, cache, x⟩
  | (.ok (), x) =>
      let loaded := cacheLoadLocked designates d context capacity memory cache x
      { loaded with device := d.release loaded.device }

/-! ## Snapshots for peers -/

/-- `stn_peer_snapshot`: the octets it owns, the spans of its blocks, and the three fields of a
state that its summary has. -/
structure PeerSnapshot (κ : Type) where
  context : κ
  bytes : Bytes
  blocks : List Bytes
  height : UInt64
  tipId : Octets 32
  cumulativeWork : Work

/-- What `stn_peer_snapshot_load` leaves. -/
structure SnapshotLoad (κ σ : Type) where
  result : Except StorageStatus (PeerSnapshot κ)
  cache : Option (StorageCache κ)
  device : σ

/-- `stn_peer_snapshot_load`; `neededBytes` is what a provider reports when it is read without
capacity. -/
def peerSnapshotLoad [DecidableEq κ] (designates : κ → ChainContext) (d : StorageDevice σ)
    (neededBytes : σ → ℕ) (context : κ) (memory : CacheMemory) (cache : Option (StorageCache κ))
    (x : σ) : SnapshotLoad κ σ :=
  match d.acquire x with
  | (.error status, x) => ⟨.error status, cache, x⟩
  | (.ok (), x) =>
      let needed := neededBytes x
      let (probe, x) := d.read 0 x
      let refused : Option StorageStatus :=
        match probe with
        | .ok _ => if needed = 0 then some .format else none
        | .error status => if status ≠ .capacity ∨ needed = 0 then some status else none
      match refused with
      | some status => ⟨.error status, cache, d.release x⟩
      | none =>
          if !memory.snapshots then ⟨.error .capacity, cache, d.release x⟩
          else
            let loaded := cacheLoadLocked designates d context needed memory cache x
            let scratch := ((d.read needed x).1.toOption).getD []
            { result := loaded.result.map fun view =>
                { context
                  bytes := scratch
                  blocks := view.blocks
                  height := view.state.height
                  tipId := view.state.tipId
                  cumulativeWork := view.state.cumulativeWork }
              cache := loaded.cache
              device := d.release loaded.device }

/-! ## Spans -/

omit [Primitives] in
theorem wireRead_drop_take {image : Bytes} {stop offset n : ℕ} (h : offset + n ≤ stop) :
    wireRead ((image.take stop).drop offset) 0 n = wireRead image offset n := by
  have hfield : BigEndian.field ((image.take stop).drop offset) 0 n =
      BigEndian.field image offset n := by
    simp only [BigEndian.field, List.drop_zero]
    rw [List.drop_take, List.take_take, min_eq_left (Nat.le_sub_of_add_le' h)]
  rw [wireRead, hfield, wireRead]

omit [Primitives] in
/-- The loop of the cache finds the blocks that decoding finds. -/
theorem cacheSpans_of_storedBlocks {image : Bytes} {count offset : ℕ} {blocks : List Bytes}
    (hoffset : offset ≤ image.length - 32)
    (h : storedBlocks count ((image.take (image.length - 32)).drop offset) = some blocks) :
    ∃ spans, cacheSpans image count offset = some (spans, image.length - 32) ∧
      spans.map (spanBytes image) = blocks := by
  have hlength : ((image.take (image.length - 32)).drop offset).length =
      image.length - 32 - offset := by
    rw [List.length_drop, List.length_take, min_eq_left (Nat.sub_le _ _)]
  induction count generalizing offset blocks with
  | zero =>
      simp only [storedBlocks] at h
      split at h
      · next hnil =>
          obtain rfl := Option.some.inj h
          rw [hnil, List.length_nil] at hlength
          have hend : offset = image.length - 32 := by omega
          exact ⟨[], by rw [cacheSpans, hend], rfl⟩
      · cases h
  | succ count ih =>
      simp only [storedBlocks] at h
      split at h
      · cases h
      next bytes rest hblock =>
      obtain ⟨blocks', hrest, rfl⟩ := Option.map_eq_some_iff.mp h
      simp only [storedBlock, hlength] at hblock
      split at hblock
      · cases hblock
      next hsize =>
      split at hblock
      · cases hblock
      next hlimits =>
      obtain ⟨rfl, rfl⟩ := Prod.mk.inj (Option.some.inj hblock)
      rw [wireRead_drop_take (by omega)] at hlimits hrest
      rw [wireRead_drop_take (by omega)]
      generalize hread : wireRead image offset 4 = length at hlimits hrest ⊢
      simp only [not_or] at hlimits
      obtain ⟨hmin, hmax, hroom⟩ := hlimits
      rw [List.drop_drop, ← Nat.add_assoc] at hrest
      have hlength' : ((image.take (image.length - 32)).drop (offset + 4 + length)).length =
          image.length - 32 - (offset + 4 + length) := by
        rw [List.length_drop, List.length_take, min_eq_left (Nat.sub_le _ _)]
      obtain ⟨spans, hspans, hmap⟩ := ih (by omega) hrest hlength'
      refine ⟨(offset + 4, length) :: spans, ?_, ?_⟩
      · have hfits : ¬(offset > image.length - 32 ∨ image.length - 32 - offset < 4) := by omega
        have hwithin : ¬(length < blockHeaderSize ∨ length > blockMaxSize ∨
            length > image.length - 32 - (offset + 4)) := by omega
        simp only [cacheSpans, if_neg hfits, hread, if_neg hwithin, hspans, Option.map_some]
      · rw [List.map_cons, hmap, spanBytes, List.drop_drop, List.drop_take, List.take_take,
          min_eq_left (by omega)]

/-! ## Exactness -/

/-- A kept view is what the kept octets decode to. -/
def StorageCache.Sound (designates : κ → ChainContext) (cache : StorageCache κ) : Prop :=
  storageDecode (designates cache.context) cache.bytes =
    .ok ⟨cache.blocks.map (spanBytes cache.bytes), cache.state⟩

/-- A cached load gives what the plain one gives, a failure of the provider under the status that
the provider `answered`, or no room for the copy of a kept view. -/
def LoadAgrees (memory : CacheMemory) (answered : StorageStatus → Prop)
    (cached plain : Except StorageStatus StorageView) : Prop :=
  cached = plain ∨
    (∃ status, answered status ∧ cached = .error status ∧ plain = .error (ioStatus status)) ∨
    (cached = .error .capacity ∧ memory.copies = false ∧ ∃ view, plain = .ok view)

/-- The provider answers a read with a status. -/
def StorageDevice.ReadFails (d : StorageDevice σ) (capacity : ℕ) (x : σ) (status : StorageStatus) :
    Prop :=
  (d.read capacity x).1 = .error status

/-- The provider answers a load with a status: it refuses the exclusion, or the read. -/
def StorageDevice.LoadFails (d : StorageDevice σ) (capacity : ℕ) (x : σ) (status : StorageStatus) :
    Prop :=
  (d.acquire x).1 = .error status ∨
    ((d.acquire x).1 = .ok () ∧ d.ReadFails capacity (d.acquire x).2 status)

section Exact

variable {designates : κ → ChainContext} {d : StorageDevice σ} {context : κ} {capacity : ℕ}
  {memory : CacheMemory} {cache : Option (StorageCache κ)} {x : σ}

/-- What is remembered of a validated image is sound. -/
theorem cacheRemember_sound {image : Bytes} {view : StorageView} {kept : StorageCache κ}
    (hdecode : storageDecode (designates context) image = .ok view)
    (h : cacheRemember memory context image view.state = some kept) :
    kept.Sound designates := by
  obtain ⟨hblocks, -⟩ := storageDecode_checked hdecode
  simp only [cacheRemember] at h
  split at h
  · cases h
  next hsize =>
  split at h
  · cases h
  split at h
  · cases h
  next spans offset hspans =>
  split at h
  · cases h
  obtain rfl := Option.some.inj h
  simp only [storageOverhead] at hsize
  obtain ⟨spans', hspans', hmap⟩ := cacheSpans_of_storedBlocks (by omega) hblocks
  obtain ⟨rfl, -⟩ := Prod.mk.inj (Option.some.inj (hspans.symm.trans hspans'))
  rw [StorageCache.Sound, hdecode, hmap]

variable [DecidableEq κ]

/-- A load with exclusion held gives what reading and decoding gives, and leaves a sound cache. -/
theorem cacheLoadLocked_spec (hsound : ∀ kept ∈ cache, kept.Sound designates) :
    let loaded := cacheLoadLocked designates d context capacity memory cache x
    let plain := readLocked (designates context) d capacity x
    loaded.device = plain.2 ∧
      LoadAgrees memory (d.ReadFails capacity x) loaded.result (plain.1.map Prod.snd) ∧
      ∀ kept ∈ loaded.cache, kept.Sound designates := by
  intro loaded plain
  simp only [loaded, plain, cacheLoadLocked, readLocked]
  obtain ⟨answer, x', hread⟩ : ∃ answer x', d.read capacity x = (answer, x') := ⟨_, _, rfl⟩
  rw [hread]
  cases answer with
  | error status =>
      have hanswered : d.ReadFails capacity x status := congrArg Prod.fst hread
      exact ⟨rfl, .inr (.inl ⟨status, hanswered, rfl, rfl⟩), hsound⟩
  | ok scratch =>
      dsimp only
      by_cases hfits : scratch.length > capacity
      · rw [if_pos hfits, if_pos hfits]
        exact ⟨rfl, .inl rfl, hsound⟩
      rw [if_neg hfits, if_neg hfits]
      split
      · next kept hkept =>
          obtain ⟨hmem, hsame⟩ := Option.filter_eq_some_iff.mp hkept
          simp only [Bool.decide_and, Bool.and_eq_true, decide_eq_true_eq] at hsame
          obtain ⟨rfl, rfl⟩ := hsame
          have hdecode := hsound kept hmem
          rw [StorageCache.Sound] at hdecode
          refine ⟨rfl, ?_, hsound⟩
          simp only [hdecode, Except.map, copyView]
          cases hcopies : memory.copies with
          | true => exact .inl rfl
          | false => exact .inr (.inr ⟨rfl, hcopies, _, rfl⟩)
      · cases hdecode : storageDecode (designates context) scratch with
        | error status => exact ⟨rfl, .inl rfl, by simp⟩
        | ok view =>
            refine ⟨rfl, .inl rfl, fun kept hkept => ?_⟩
            exact cacheRemember_sound hdecode (Option.mem_def.mp hkept)

theorem cacheLoad_spec (hsound : ∀ kept ∈ cache, kept.Sound designates) :
    let loaded := cacheLoad designates d context capacity memory cache x
    let plain := storageLoad (designates context) d capacity x
    loaded.device = plain.2 ∧
      LoadAgrees memory (d.LoadFails capacity x) loaded.result plain.1 ∧
      ∀ kept ∈ loaded.cache, kept.Sound designates := by
  intro loaded plain
  simp only [loaded, plain, cacheLoad, storageLoad]
  obtain ⟨answer, x', hacquire⟩ : ∃ answer x', d.acquire x = (answer, x') := ⟨_, _, rfl⟩
  rw [hacquire]
  cases answer with
  | error status =>
      have hanswered : d.LoadFails capacity x status := .inl (congrArg Prod.fst hacquire)
      exact ⟨rfl, .inr (.inl ⟨status, hanswered, rfl, rfl⟩), hsound⟩
  | ok _ =>
      obtain ⟨hdevice, hagrees, hkept⟩ := cacheLoadLocked_spec (d := d)
        (x := x') hsound
      refine ⟨congrArg d.release hdevice, ?_, hkept⟩
      rcases hagrees with hsame | ⟨status, hanswered, hfailed⟩ | hroom
      · exact .inl hsame
      · refine .inr (.inl ⟨status, .inr ⟨by rw [hacquire], ?_⟩, hfailed⟩)
        rw [hacquire]
        exact hanswered
      · exact .inr (.inr hroom)

/-- A load that succeeds gives what the octets read decode to. -/
theorem cacheLoadLocked_ok (hsound : ∀ kept ∈ cache, kept.Sound designates) {view : StorageView}
    (h : (cacheLoadLocked designates d context capacity memory cache x).result = .ok view) :
    ∃ image, (d.read capacity x).1 = .ok image ∧
      storageDecode (designates context) image = .ok view := by
  obtain ⟨-, hagrees, -⟩ := cacheLoadLocked_spec (d := d)
    (x := x) hsound
  rw [h] at hagrees
  rcases hagrees with hplain | ⟨status, -, hfailed, -⟩ | ⟨hfailed, -⟩
  · simp only [readLocked] at hplain
    split at hplain
    · cases hplain
    next image x' hread =>
    split at hplain
    · cases hplain
    cases hdecode : storageDecode (designates context) image with
    | error status =>
        rw [hdecode] at hplain
        cases hplain
    | ok view' =>
        rw [hdecode] at hplain
        exact ⟨image, by rw [hread], by rw [hdecode, Except.ok.inj hplain]⟩
  · cases hfailed
  · cases hfailed

end Exact

/-! ## Runs -/

/-- What happens to the cache and the provider: a load, a load of a snapshot for a peer, a
remembered image, a release, and whatever else is done with the provider. -/
inductive CacheEvent (κ σ : Type)
  | load (context : κ) (capacity : ℕ) (memory : CacheMemory)
  | snapshot (context : κ) (memory : CacheMemory)
  | remember (context : κ) (image : Bytes) (state : ChainState) (memory : CacheMemory)
  | release
  | provider (change : σ → σ)

/-- What the header asks of a remembered image: it was validated to the given state. -/
def CacheEvent.Validated (designates : κ → ChainContext) : CacheEvent κ σ → Prop
  | .remember context image state _ =>
      ∃ blocks, storageDecode (designates context) image = .ok ⟨blocks, state⟩
  | _ => True

/-- One event. -/
def cacheStep [DecidableEq κ] (designates : κ → ChainContext) (d : StorageDevice σ)
    (neededBytes : σ → ℕ) (s : Option (StorageCache κ) × σ) :
    CacheEvent κ σ → Option (StorageCache κ) × σ
  | .load context capacity memory =>
      let loaded := cacheLoad designates d context capacity memory s.1 s.2
      (loaded.cache, loaded.device)
  | .snapshot context memory =>
      let loaded := peerSnapshotLoad designates d neededBytes context memory s.1 s.2
      (loaded.cache, loaded.device)
  | .remember context image state memory => (cacheRemember memory context image state, s.2)
  | .release => (none, s.2)
  | .provider change => (s.1, change s.2)

/-- The cache and the provider after a run of events. -/
def cacheRun [DecidableEq κ] (designates : κ → ChainContext) (d : StorageDevice σ)
    (neededBytes : σ → ℕ) (events : List (CacheEvent κ σ)) (s : Option (StorageCache κ) × σ) :
    Option (StorageCache κ) × σ :=
  events.foldl (cacheStep designates d neededBytes) s

section Runs

variable [DecidableEq κ] {designates : κ → ChainContext} {d : StorageDevice σ}
  {neededBytes : σ → ℕ} {context : κ} {memory : CacheMemory} {s : Option (StorageCache κ) × σ}

/-- A snapshot is an image of the provider with what it decodes to. -/
def PeerSnapshot.Exact (designates : κ → ChainContext) (d : StorageDevice σ) (x : σ)
    (snapshot : PeerSnapshot κ) : Prop :=
  ∃ view, d.persisted x = some snapshot.bytes ∧
    storageDecode (designates snapshot.context) snapshot.bytes = .ok view ∧
    snapshot.blocks = view.blocks ∧ snapshot.height = view.state.height ∧
    snapshot.tipId = view.state.tipId ∧
    snapshot.cumulativeWork = view.state.cumulativeWork

theorem peerSnapshotLoad_spec (hsound : ∀ kept ∈ s.1, kept.Sound designates) :
    let loaded := peerSnapshotLoad designates d neededBytes context memory s.1 s.2
    (∀ snapshot, loaded.result = .ok snapshot →
      snapshot.context = context ∧ snapshot.Exact designates d s.2) ∧
      d.persisted loaded.device = d.persisted s.2 ∧
      ∀ kept ∈ loaded.cache, kept.Sound designates := by
  intro loaded
  have hacquire := d.acquire_persisted s.2
  simp only [loaded, peerSnapshotLoad]
  split
  · next status x hx =>
      rw [hx] at hacquire
      exact ⟨by simp, hacquire, hsound⟩
  next x hx =>
  rw [hx] at hacquire
  have hprobe := d.read_persisted 0 x
  split
  · exact ⟨by simp, by rw [d.release_persisted, hprobe, hacquire], hsound⟩
  split
  · exact ⟨by simp, by rw [d.release_persisted, hprobe, hacquire], hsound⟩
  obtain ⟨hdevice, hagrees, hkept⟩ := cacheLoadLocked_spec (d := d)
    (x := (d.read 0 x).2) hsound
  have hread := (readLocked_spec (designates context) d (neededBytes x) (d.read 0 x).2).1
  have hloaded := @cacheLoadLocked_ok _ _ _ designates d context (neededBytes x) memory s.1
    (d.read 0 x).2 _ hsound
  refine ⟨fun snapshot hsnapshot => ?_, ?_, hkept⟩
  · generalize cacheLoadLocked designates d context (neededBytes x) memory s.1 (d.read 0 x).2 =
      locked at hsnapshot hloaded
    cases hresult : locked.result with
    | error status =>
        rw [hresult] at hsnapshot
        cases hsnapshot
    | ok view =>
        obtain ⟨image, himage, hdecode⟩ := hloaded hresult
        rw [hresult, himage] at hsnapshot
        obtain rfl := Except.ok.inj hsnapshot
        refine ⟨rfl, view, ?_, hdecode, rfl, rfl, rfl, rfl⟩
        rw [← hacquire, ← hprobe]
        exact d.read_ok _ _ image himage
  · rw [d.release_persisted, hdevice, hread, hprobe, hacquire]

/-- The cache is sound after every run. -/
theorem cacheRun_sound {events : List (CacheEvent κ σ)}
    (hvalidated : ∀ event ∈ events, event.Validated designates)
    (hsound : ∀ kept ∈ s.1, kept.Sound designates) :
    ∀ kept ∈ (cacheRun designates d neededBytes events s).1, kept.Sound designates := by
  induction events generalizing s with
  | nil => exact hsound
  | cons event rest ih =>
      refine ih (fun event' hevent' => hvalidated event' (List.mem_cons_of_mem event hevent')) ?_
      cases event with
      | load context capacity memory => exact (cacheLoad_spec hsound).2.2
      | snapshot context memory => exact (peerSnapshotLoad_spec hsound).2.2
      | remember context image state memory =>
          obtain ⟨blocks, hdecode⟩ := hvalidated _ List.mem_cons_self
          exact fun kept hkept => cacheRemember_sound hdecode (Option.mem_def.mp hkept)
      | release => exact fun kept hkept => absurd hkept (Option.not_mem_none kept)
      | provider change => exact hsound

/-- At every point of every run of loads, remembered images, releases and changes of the provider,
a cached load does to the provider what the plain load does and gives what it gives, or the
provider's own status where it fails. -/
theorem cached_load_exact (designates : κ → ChainContext) (d : StorageDevice σ)
    (neededBytes : σ → ℕ) (events : List (CacheEvent κ σ))
    (hvalidated : ∀ event ∈ events, event.Validated designates) (x : σ) (context : κ)
    (capacity : ℕ) (memory : CacheMemory) :
    let s := cacheRun designates d neededBytes events (none, x)
    let loaded := cacheLoad designates d context capacity memory s.1 s.2
    let plain := storageLoad (designates context) d capacity s.2
    loaded.device = plain.2 ∧
      LoadAgrees memory (d.LoadFails capacity s.2) loaded.result plain.1 := by
  intro s loaded plain
  have hsound : ∀ kept ∈ s.1, kept.Sound designates :=
    cacheRun_sound hvalidated fun kept hkept => absurd hkept (Option.not_mem_none kept)
  obtain ⟨hdevice, hagrees, -⟩ := cacheLoad_spec hsound
  exact ⟨hdevice, hagrees⟩

/-- At every point of every run, a snapshot for a peer has the octets of the stored image and the
blocks, height, tip and work of the history that image decodes to, and taking it leaves the
image. -/
theorem peer_snapshot_exact (designates : κ → ChainContext) (d : StorageDevice σ)
    (neededBytes : σ → ℕ) (events : List (CacheEvent κ σ))
    (hvalidated : ∀ event ∈ events, event.Validated designates) (x : σ) (context : κ)
    (memory : CacheMemory) :
    let s := cacheRun designates d neededBytes events (none, x)
    let loaded := peerSnapshotLoad designates d neededBytes context memory s.1 s.2
    d.persisted loaded.device = d.persisted s.2 ∧
      ∀ snapshot, loaded.result = .ok snapshot →
        snapshot.context = context ∧ snapshot.Exact designates d s.2 := by
  intro s loaded
  have hsound : ∀ kept ∈ s.1, kept.Sound designates :=
    cacheRun_sound hvalidated fun kept hkept => absurd hkept (Option.not_mem_none kept)
  obtain ⟨hsnapshot, hpersisted, -⟩ := peerSnapshotLoad_spec hsound
  exact ⟨hpersisted, hsnapshot⟩

end Runs

end

section Sample

attribute [local instance] Sample.storing

namespace Sample

/-- A run that loads, remembers the sample history and then finds it stored. -/
def rememberedRun (t : ChainState) : List (CacheEvent Bool (Option Bytes)) :=
  [.load false 4096 ⟨true, true, true⟩, .remember true (imageOf [genesis]) t ⟨true, true, true⟩,
    .provider fun _ => some (imageOf [genesis])]

theorem rememberedRun_validated : ∃ t : ChainState, ∀ event ∈ rememberedRun t,
    event.Validated fun _ => storingContext := by
  obtain ⟨t, ht, -⟩ := accepts_genesis
  have hdecode := storageDecode_of_encode (by decide) ht
    (storageEncode_imageOf ht (by decide) (by decide +kernel))
  refine ⟨t, fun event hevent => ?_⟩
  rcases List.mem_cons.mp hevent with rfl | hevent
  · exact trivial
  rcases List.mem_cons.mp hevent with rfl | hevent
  · exact ⟨[genesis], hdecode⟩
  · obtain rfl := List.mem_singleton.mp hevent
    exact trivial

end Sample

open Sample

theorem sample_cached_load_exact : ∃ t : ChainState,
    let s := cacheRun (fun _ => storingContext) memory (fun _ => 0) (rememberedRun t) (none, none)
    LoadAgrees ⟨true, true, true⟩ (memory.LoadFails 4096 s.2)
      (cacheLoad (fun _ => storingContext) memory true 4096 ⟨true, true, true⟩ s.1 s.2).result
      (storageLoad storingContext memory 4096 s.2).1 := by
  obtain ⟨t, hvalidated⟩ := rememberedRun_validated
  exact ⟨t, (cached_load_exact _ memory (fun _ => 0) _ hvalidated none true 4096 _).2⟩

theorem sample_peer_snapshot_exact : ∃ t : ChainState,
    let s := cacheRun (fun _ => storingContext) memory (fun x => (x.getD []).length)
      (rememberedRun t) (none, none)
    ∀ snapshot, (peerSnapshotLoad (fun _ => storingContext) memory (fun x => (x.getD []).length)
      true ⟨true, true, true⟩ s.1 s.2).result = .ok snapshot →
        snapshot.Exact (fun _ => storingContext) memory s.2 := by
  obtain ⟨t, hvalidated⟩ := rememberedRun_validated
  exact ⟨t, fun snapshot hsnapshot => ((peer_snapshot_exact _ memory _ _ hvalidated none true
    ⟨true, true, true⟩).2 snapshot hsnapshot).2⟩

end Sample

end StnChain
