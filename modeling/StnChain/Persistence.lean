import StnChain.Adopt
import StnChain.ForkChoice

/-!
# Persistence

The storage operations against a stateful provider (`stn_storage.c`).  A provider is
given with its contract: what `replace` publishes it publishes whole, a failing call
publishes nothing, and `read` returns what is stored.  Creation, reorganization,
extension and adoption then change the stored image and the active state together or
not at all, an extended image is the encoding of the extended history, and stored work
only grows.
-/

namespace StnChain

section

variable [Primitives]

/-! ## Providers -/

/-- `stn_storage_provider` over provider states `σ`, with the snapshot a state holds and
the contract of the header: only a successful `replace` changes the snapshot, a
successful `read` returns it, and it is reported missing only if there is none. -/
structure StorageDevice (σ : Type) where
  persisted : σ → Option Bytes
  acquire : σ → Except StorageStatus Unit × σ
  release : σ → σ
  read : ℕ → σ → Except StorageStatus Bytes × σ
  replace : Bytes → σ → Except StorageStatus Unit × σ
  acquire_persisted : ∀ x, persisted (acquire x).2 = persisted x
  release_persisted : ∀ x, persisted (release x) = persisted x
  read_persisted : ∀ capacity x, persisted (read capacity x).2 = persisted x
  read_ok : ∀ capacity x image, (read capacity x).1 = .ok image → persisted x = some image
  read_notFound : ∀ capacity x, (read capacity x).1 = .error .notFound → persisted x = none
  replace_ok : ∀ image x, (replace image x).1 = .ok () →
    persisted (replace image x).2 = some image
  replace_error : ∀ image x status, (replace image x).1 = .error status →
    persisted (replace image x).2 = persisted x

/-- What a storage operation leaves: its status, the active state and the provider. -/
structure StorageOutcome (σ : Type) where
  status : Except StorageStatus Unit
  active : ChainState
  device : σ

variable {σ : Type}

/-- The provider exclusion around an operation. -/
def storageLocked (d : StorageDevice σ) (active : ChainState) (x : σ)
    (body : σ → StorageOutcome σ) : StorageOutcome σ :=
  match d.acquire x with
  | (.error status, x) => ⟨.error (ioStatus status), active, x⟩
  | (.ok (), x) => { body x with device := d.release (body x).device }

/-- The end of an operation: the image is published, then the next state is active. -/
def storageCommit (d : StorageDevice σ) (image : Except StorageStatus Bytes)
    (next active : ChainState) (x : σ) : StorageOutcome σ :=
  match image with
  | .error status => ⟨.error status, active, x⟩
  | .ok image =>
      match d.replace image x with
      | (.error status, x) => ⟨.error (ioStatus status), active, x⟩
      | (.ok (), x) => ⟨.ok (), next, x⟩

/-- `read_locked`, with the image the view borrows from. -/
def readLocked (c : ChainContext) (d : StorageDevice σ) (capacity : ℕ) (x : σ) :
    Except StorageStatus (Bytes × StorageView) × σ :=
  match d.read capacity x with
  | (.error status, x) => (.error (ioStatus status), x)
  | (.ok image, x) =>
      if image.length > capacity then (.error .io, x)
      else ((storageDecode c image).map fun view => (image, view), x)

/-- `stn_storage_load`. -/
def storageLoad (c : ChainContext) (d : StorageDevice σ) (capacity : ℕ) (x : σ) :
    Except StorageStatus StorageView × σ :=
  match d.acquire x with
  | (.error status, x) => (.error (ioStatus status), x)
  | (.ok (), x) =>
      let (result, x) := readLocked c d capacity x
      (result.map Prod.snd, d.release x)

/-! ## Comparison of states and plans -/

/-- The fields of a history entry that `state_equal` compares. -/
def entryFields (h : BlockHeader) : UInt16 × UInt64 × UInt64 × Octets 32 :=
  (h.version, h.height, h.timestamp, h.reservedTarget)

/-- `state_equal`. -/
def stateEqual (a b : ChainState) : Bool :=
  a.targetHistory.length = b.targetHistory.length && a.targetHistory.length ≤ 60 &&
    a.targetHistory.map entryFields = b.targetHistory.map entryFields &&
    a.height = b.height && a.timestamp = b.timestamp && a.hasTip = b.hasTip &&
    a.networkId = b.networkId && a.genesisId = b.genesisId && a.tipId = b.tipId &&
    a.currentTarget = b.currentTarget && a.cumulativeWork = b.cumulativeWork

/-- `plan_equal`. -/
def planEqual (a b : ReorgPlan) : Bool :=
  a.actionable = b.actionable && a.ancestorIndex = b.ancestorIndex &&
    a.ancestorId = b.ancestorId && a.detachBegin = b.detachBegin && a.detachEnd = b.detachEnd &&
    a.attachBegin = b.attachBegin && a.attachEnd = b.attachEnd &&
    a.detachedCount = b.detachedCount && a.attachedCount = b.attachedCount &&
    a.resultingHeight = b.resultingHeight && stateEqual a.current b.current &&
    stateEqual a.candidate b.candidate

/-! ## Operations -/

/-- `stn_storage_create`. -/
def storageCreate (c : ChainContext) (d : StorageDevice σ) (blocks : List Bytes) (capacity : ℕ)
    (active : ChainState) (x : σ) : StorageOutcome σ :=
  match storageValidate c blocks with
  | .error status => ⟨.error status, active, x⟩
  | .ok state =>
      storageLocked d active x fun x =>
        match d.read 0 x with
        | (.ok _, x) => ⟨.error .exists, active, x⟩
        | (.error status, x) =>
            if ioStatus status = .notFound then
              storageCommit d (storageEncode c blocks capacity) state active x
            else if ioStatus status = .capacity then ⟨.error .exists, active, x⟩
            else ⟨.error (ioStatus status), active, x⟩

/-- `stn_storage_apply`. -/
def storageApply (c : ChainContext) (d : StorageDevice σ) (blocks : List Bytes)
    (plan : ReorgPlan) (w : StorageWorkspace) (active : ChainState) (x : σ) : StorageOutcome σ :=
  storageLocked d active x fun x =>
    match readLocked c d w.currentCapacity x with
    | (.error status, x) => ⟨.error status, active, x⟩
    | (.ok (_, current), x) =>
        if !stateEqual active current.state then ⟨.error .stale, active, x⟩
        else
          match forkEvaluateHistory c current.blocks blocks with
          | (r, fresh) =>
              match storagePrefers r fresh false with
              | .error status => ⟨.error status, active, x⟩
              | .ok () =>
                  match fresh with
                  | none => ⟨.error .stale, active, x⟩
                  | some fresh =>
                      if !planEqual plan fresh then ⟨.error .stale, active, x⟩
                      else
                        storageCommit d (storageEncode c blocks w.nextCapacity) fresh.candidate
                          active x

/-- The image `stn_storage_extend` makes of the stored one: its prefix up to the end of
the last block with a new count, the appended block and a new digest. -/
def extendImage (c : ChainContext) (image : Bytes) (blocks : List Bytes) (bytes : Bytes)
    (capacity : ℕ) : Except StorageStatus Bytes :=
  let offset := 12 + (blocks.map fun b => 4 + b.length).sum
  if offset + 4 + bytes.length + 32 > capacity then .error .capacity
  else
    let signed := image.take 8 ++ wireWrite 4 (blocks.length + 1) ++ (image.take offset).drop 12 ++
      wireWrite 4 bytes.length ++ bytes
    match storageDigest c signed with
    | .error status => .error status
    | .ok digest => .ok (signed ++ octetBytes digest)

/-- `stn_storage_extend`. -/
def storageExtend (c : ChainContext) (d : StorageDevice σ) (bytes : Bytes) (w : StorageWorkspace)
    (active : ChainState) (x : σ) : StorageOutcome σ :=
  storageLocked d active x fun x =>
    match readLocked c d w.currentCapacity x with
    | (.error status, x) => ⟨.error status, active, x⟩
    | (.ok (image, current), x) =>
        if !stateEqual active current.state then ⟨.error .stale, active, x⟩
        else if current.blocks.length ≥ 2 ^ 32 - 1 then ⟨.error .capacity, active, x⟩
        else
          match chainReconstructHistory c (current.blocks ++ [bytes]) with
          | (r, none) =>
              ⟨.error (if r.acceptance = .unresolved then .unresolved else .validation), active, x⟩
          | (_, some next) =>
              storageCommit d (extendImage c image current.blocks bytes w.nextCapacity) next
                active x

/-- `stn_storage_adopt` against a stateful provider. -/
def storageAdoptOn (c : ChainContext) (d : StorageDevice σ) (blocks : List Bytes)
    (w : StorageWorkspace) (active : ChainState) (x : σ) : StorageOutcome σ :=
  match storageValidate c blocks with
  | .error status => ⟨.error status, active, x⟩
  | .ok candidate =>
      storageLocked d active x fun x =>
        match d.read w.currentCapacity x with
        | (result, x) =>
            match recoveryLocked c ⟨.ok (), fun _ => result⟩ w.currentCapacity with
            | .error status => ⟨.error status, active, x⟩
            | .ok (stored, recovery) =>
                match (if stored.blocks = [] then .ok () else
                  storagePrefers (forkEvaluateHistory c stored.blocks blocks).1
                    (forkEvaluateHistory c stored.blocks blocks).2 recovery) with
                | .error status => ⟨.error status, active, x⟩
                | .ok () =>
                    storageCommit d (storageEncode c blocks w.nextCapacity) candidate active x

/-- A call of one of the operations that change what is stored. -/
inductive StorageCall
  | create (blocks : List Bytes) (capacity : ℕ)
  | apply (blocks : List Bytes) (plan : ReorgPlan) (w : StorageWorkspace)
  | extend (bytes : Bytes) (w : StorageWorkspace)
  | adopt (blocks : List Bytes) (w : StorageWorkspace)

/-- The outcome of a call. -/
def StorageCall.run (c : ChainContext) (d : StorageDevice σ) (call : StorageCall)
    (active : ChainState) (x : σ) : StorageOutcome σ :=
  match call with
  | .create blocks capacity => storageCreate c d blocks capacity active x
  | .apply blocks plan w => storageApply c d blocks plan w active x
  | .extend bytes w => storageExtend c d bytes w active x
  | .adopt blocks w => storageAdoptOn c d blocks w active x

/-! ## Decoded images -/

omit [Primitives] in
/-- An intact block is its length and its octets. -/
theorem storedBlock_eq {rest bytes rest' : Bytes} (h : storedBlock rest = some (bytes, rest')) :
    rest = wireWrite 4 bytes.length ++ bytes ++ rest' := by
  simp only [storedBlock] at h
  split at h
  · simp at h
  next hsize =>
  split at h
  · simp at h
  next hlimits =>
  obtain ⟨rfl, rfl⟩ := Prod.mk.inj (Option.some.inj h)
  have hlength : ((rest.drop 4).take (wireRead rest 0 4)).length = wireRead rest 0 4 := by
    rw [List.length_take, List.length_drop]
    omega
  have hprefix : wireWrite 4 (wireRead rest 0 4) = rest.take 4 := by
    rw [wireWrite_wireRead (by omega), BigEndian.field, List.drop_zero]
  rw [hlength, hprefix, List.append_assoc, ← List.drop_drop, List.take_append_drop,
    List.take_append_drop]

omit [Primitives] in
theorem storedBlocks_eq {count : ℕ} {rest : Bytes} {blocks : List Bytes}
    (h : storedBlocks count rest = some blocks) :
    rest = bodyBytes blocks ∧ blocks.length = count := by
  induction count generalizing rest blocks with
  | zero =>
      simp only [storedBlocks] at h
      split at h
      · next hnil =>
          obtain rfl := Option.some.inj h
          exact ⟨hnil, rfl⟩
      · simp at h
  | succ count ih =>
      simp only [storedBlocks] at h
      split at h
      · simp at h
      next bytes rest' hblock =>
      obtain ⟨blocks', hblocks, rfl⟩ := Option.map_eq_some_iff.mp h
      obtain ⟨hrest, hcount⟩ := ih hblocks
      refine ⟨?_, by rw [List.length_cons, hcount]⟩
      rw [storedBlock_eq hblock, hrest, bodyBytes_cons]

/-- What the checks of a decoded image found. -/
theorem storageDecode_checked {c : ChainContext} {image : Bytes} {v : StorageView}
    (h : storageDecode c image = .ok v) :
    storedBlocks (wireRead image 8 4) ((image.take (image.length - 32)).drop 12) =
        some v.blocks ∧
      storageDigest c (image.take (image.length - 32)) =
        .ok (octetsAt image (image.length - 32) 32) := by
  simp only [storageDecode] at h
  split at h
  · simp at h
  split at h
  · simp at h
  split at h
  · simp at h
  next blocks hblocks =>
  split at h
  · simp at h
  next digest hdigest =>
  split at h
  · simp at h
  next hsame =>
  split at h
  · simp at h
  obtain rfl := Except.ok.inj h
  exact ⟨hblocks, by rw [hdigest, not_not.mp hsame]⟩

theorem storageDecode_count {c : ChainContext} {image : Bytes} {v : StorageView}
    (h : storageDecode c image = .ok v) : v.blocks.length < 2 ^ 32 := by
  rw [(storedBlocks_eq (storageDecode_checked h).1).2]
  exact wireRead_lt ..

theorem storageDecode_digest {c : ChainContext} {image : Bytes} {v : StorageView}
    (h : storageDecode c image = .ok v) :
    storageDigest c (image.take (image.length - 32)) =
      .ok (octetsAt image (image.length - 32) 32) :=
  (storageDecode_checked h).2

/-- A decoded image is that of its history. -/
theorem storageDecode_image {c : ChainContext} {image : Bytes} {v : StorageView}
    (h : storageDecode c image = .ok v) :
    c.powPolicy.isSome ∧ Accepts c v.blocks v.state ∧
      ∃ digest : Octets 32, image = storageSigned v.blocks ++ octetBytes digest := by
  simp only [storageDecode] at h
  split at h
  · simp at h
  next hformat =>
  split at h
  · simp at h
  next hcount =>
  split at h
  · simp at h
  next blocks hblocks =>
  split at h
  · simp at h
  next digest hdigest =>
  split at h
  · simp at h
  next hsame =>
  split at h
  · simp at h
  next state hvalid =>
  obtain rfl := Except.ok.inj h
  obtain ⟨hpolicy, haccepts⟩ := storageValidate_eq_ok_iff.mp hvalid
  obtain ⟨hsize, hmagic⟩ := not_or.mp hformat
  simp only [storageOverhead] at hsize
  obtain ⟨hbody, hlength⟩ := storedBlocks_eq hblocks
  -- The header fields are what the format check and the count read.
  have hmagic : storageFormat image = true := by simpa using hmagic
  simp only [storageFormat, Bool.and_eq_true, decide_eq_true_eq] at hmagic
  obtain ⟨⟨htag, hversion⟩, hflags⟩ := hmagic
  have hheader : image.take 12 = [0x53, 0x54, 0x4e, 0x53] ++ wireWrite 2 1 ++ wireWrite 2 0 ++
      wireWrite 4 blocks.length := by
    rw [← htag, ← hversion, ← hflags, hlength, wireWrite_wireRead (by omega),
      wireWrite_wireRead (by omega), wireWrite_wireRead (by omega)]
    have htake : image.take 4 = BigEndian.field image 0 4 := by
      rw [BigEndian.field, List.drop_zero]
    have hwhole : image.take 12 = BigEndian.field image 0 12 := by
      rw [BigEndian.field, List.drop_zero]
    rw [htake, hwhole, BigEndian.field_append_field image 0 4 2,
      BigEndian.field_append_field image 0 6 2, BigEndian.field_append_field image 0 8 4]
  have hsigned : image.take (image.length - 32) = storageSigned blocks := by
    have hfront : (image.take (image.length - 32)).take 12 = image.take 12 := by
      rw [List.take_take, min_eq_left (by omega)]
    rw [← List.take_append_drop 12 (image.take (image.length - 32)), hfront, hheader, hbody,
      storageSigned]
  have htail : octetBytes digest = image.drop (image.length - 32) := by
    rw [not_not.mp hsame, octetBytes_octetsAt (by omega), BigEndian.field,
      List.take_of_length_le (by rw [List.length_drop]; omega)]
  refine ⟨hpolicy, haccepts, digest, ?_⟩
  rw [← hsigned, htail, List.take_append_drop]

/-! ## The image as a codec -/

/-- An accepted history is encoded exactly when its length and size have room and the
digest provider answers. -/
theorem storageEncode_isOk_iff {c : ChainContext} {blocks : List Bytes} {s : ChainState}
    {capacity : ℕ} (hpolicy : c.powPolicy.isSome) (haccepts : Accepts c blocks s) :
    (∃ image, storageEncode c blocks capacity = .ok image) ↔
      blocks.length < 2 ^ 32 ∧ (storageSigned blocks).length + 32 ≤ capacity ∧
        ∃ digest, storageDigest c (storageSigned blocks) = .ok digest := by
  have hvalid := storageValidate_eq_ok_iff.mpr ⟨hpolicy, haccepts⟩
  simp only [storageEncode, hvalid]
  by_cases hcount : blocks.length > 2 ^ 32 - 1
  · rw [if_pos hcount]
    constructor
    · rintro ⟨image, himage⟩
      simp at himage
    · rintro ⟨hfew, -⟩
      omega
  by_cases hroom : (storageSigned blocks).length + 32 > capacity
  · rw [if_neg hcount, if_pos hroom]
    constructor
    · rintro ⟨image, himage⟩
      simp at himage
    · rintro ⟨-, hfits, -⟩
      omega
  have hfew : blocks.length < 2 ^ 32 := by omega
  have hfits : (storageSigned blocks).length + 32 ≤ capacity := by omega
  rw [if_neg hcount, if_neg hroom]
  cases storageDigest c (storageSigned blocks) with
  | error status => simp
  | ok digest => simp only [Except.ok.injEq, exists_eq', hfew, hfits, and_self]

/-- A decoded image is what the history it holds encodes to. -/
theorem storageEncode_of_decode {c : ChainContext} {image : Bytes} {v : StorageView}
    (h : storageDecode c image = .ok v) {capacity : ℕ} (hcapacity : image.length ≤ capacity) :
    storageEncode c v.blocks capacity = .ok image := by
  obtain ⟨hpolicy, haccepts, digest, himage⟩ := storageDecode_image h
  have hcount := storageDecode_count h
  have hdigest := storageDecode_digest h
  have hlength : image.length = (storageSigned v.blocks).length + 32 := by
    rw [himage, List.length_append, length_octetBytes]
  have hsigned : image.take (image.length - 32) = storageSigned v.blocks := by
    rw [hlength, Nat.add_sub_cancel, himage, List.take_left]
  have htail : octetsAt image (image.length - 32) 32 = digest := by
    rw [hlength, Nat.add_sub_cancel, himage, octetsAt_append_right le_rfl, Nat.sub_self,
      octetsAt_octetBytes]
  rw [hsigned, htail] at hdigest
  have hvalid := storageValidate_eq_ok_iff.mpr ⟨hpolicy, haccepts⟩
  have hfew : ¬v.blocks.length > 2 ^ 32 - 1 := by omega
  have hroom : ¬(storageSigned v.blocks).length + 32 > capacity := by omega
  simp only [storageEncode, if_neg hfew, hvalid, if_neg hroom, hdigest, himage]

/-- Under a proof-of-work policy, encoding and decoding a stored image are inverse: what an
accepted history encodes to decodes to that history, and an accepted image is the encoding
of what it decodes to, so one history has one image. -/
theorem storage_codec {c : ChainContext} (hpolicy : c.powPolicy.isSome) :
    (∀ blocks s capacity, Accepts c blocks s →
      ((∃ image, storageEncode c blocks capacity = .ok image) ↔
        blocks.length < 2 ^ 32 ∧ (storageSigned blocks).length + 32 ≤ capacity ∧
          ∃ digest, storageDigest c (storageSigned blocks) = .ok digest) ∧
      ∀ image, storageEncode c blocks capacity = .ok image →
        storageDecode c image = .ok ⟨blocks, s⟩) ∧
    (∀ image v, storageDecode c image = .ok v →
      Accepts c v.blocks v.state ∧
        ∀ capacity, image.length ≤ capacity → storageEncode c v.blocks capacity = .ok image) ∧
    (∀ image image' v v', storageDecode c image = .ok v → storageDecode c image' = .ok v' →
      v.blocks = v'.blocks → image = image') := by
  refine ⟨?_, ?_, ?_⟩
  · intro blocks s capacity haccepts
    exact ⟨storageEncode_isOk_iff hpolicy haccepts,
      fun image himage => storageDecode_of_encode hpolicy haccepts himage⟩
  · intro image v hdecode
    exact ⟨(storageDecode_image hdecode).2.1,
      fun capacity hcapacity => storageEncode_of_decode hdecode hcapacity⟩
  · intro image image' v v' hdecode hdecode' hsame
    have hencode := storageEncode_of_decode hdecode (le_max_left image.length image'.length)
    have hencode' := storageEncode_of_decode hdecode' (le_max_right image.length image'.length)
    rw [← hsame, hencode] at hencode'
    exact Except.ok.inj hencode'

/-! ## The image of an extension -/

/-- Patching the image of a history encodes the extended history. -/
theorem extendImage_eq_encode {c : ChainContext} {blocks : List Bytes} {bytes : Bytes}
    {digest : Octets 32} {capacity : ℕ} {next : ChainState} (hpolicy : c.powPolicy.isSome)
    (hcount : ¬blocks.length ≥ 2 ^ 32 - 1) (haccepts : Accepts c (blocks ++ [bytes]) next) :
    extendImage c (storageSigned blocks ++ octetBytes digest) blocks bytes capacity =
      storageEncode c (blocks ++ [bytes]) capacity := by
  have hoffset : 12 + (blocks.map fun b => 4 + b.length).sum = (storageSigned blocks).length := by
    rw [length_storageSigned, length_bodyBytes]
  have hvalid := storageValidate_eq_ok_iff.mpr ⟨hpolicy, haccepts⟩
  have hlimit : ¬(blocks ++ [bytes]).length > 2 ^ 32 - 1 := by
    rw [List.length_append, List.length_singleton]
    omega
  have htail : bodyBytes [bytes] = wireWrite 4 bytes.length ++ bytes := by
    rw [bodyBytes_cons]
    exact List.append_nil _
  have hlength : (storageSigned (blocks ++ [bytes])).length + 32 =
      (storageSigned blocks).length + 4 + bytes.length + 32 := by
    rw [length_storageSigned, length_storageSigned, bodyBytes_append, htail, List.length_append,
      List.length_append, length_wireWrite]
    omega
  have hdrop : (storageSigned blocks).drop 12 = bodyBytes blocks := by
    rw [storageSigned, List.drop_left' (by simp)]
  have hfront : (storageSigned blocks ++ octetBytes digest).take 8 =
      [0x53, 0x54, 0x4e, 0x53] ++ wireWrite 2 1 ++ wireWrite 2 0 := by
    rw [storageSigned, List.append_assoc, List.append_assoc, List.take_left' (by simp)]
  have hsigned : (storageSigned blocks ++ octetBytes digest).take 8 ++
      wireWrite 4 (blocks.length + 1) ++
      ((storageSigned blocks ++ octetBytes digest).take (storageSigned blocks).length).drop 12 ++
      wireWrite 4 bytes.length ++ bytes = storageSigned (blocks ++ [bytes]) := by
    rw [hfront, List.take_left, hdrop, storageSigned, bodyBytes_append, htail, List.length_append,
      List.length_singleton]
    simp only [List.append_assoc]
  cases hdigest : storageDigest c (storageSigned (blocks ++ [bytes])) <;>
    simp only [extendImage, storageEncode, if_neg hlimit, hvalid, hoffset, hsigned, hlength,
      hdigest]

/-! ## Preferred histories -/

omit [Primitives] in
theorem ForkReport.failure_ne_candidate (r : ForkReport) (side : ℕ) (detail : Option DataStatus) :
    (r.failure side detail).result ≠ .candidate := by
  simp only [ForkReport.failure]
  split
  · exact ForkResult.noConfusion
  split
  · exact ForkResult.noConfusion
  split
  · exact ForkResult.noConfusion
  · exact ForkResult.noConfusion

/-- A preferred candidate is accepted, is the candidate of the plan and has more work. -/
theorem forkEvaluateHistory_candidate {c : ChainContext} {current candidate : List Bytes}
    {s : ChainState} (hcurrent : Accepts c current s)
    (h : (forkEvaluateHistory c current candidate).1.result = .candidate) :
    ∃ t plan, Accepts c candidate t ∧
      (forkEvaluateHistory c current candidate).2 = some plan ∧ plan.candidate = t ∧
      s.cumulativeWork.toNat < t.cumulativeWork.toNat := by
  simp only [forkEvaluateHistory] at h ⊢
  split at h
  · simp at h
  next hpolicy =>
  simp only [if_neg hpolicy, forkHistory_of_accepts hcurrent] at h ⊢
  split at h
  · next r hfailed =>
      simp only [forkHistory] at hfailed
      split at hfailed
      · obtain rfl := Except.error.inj hfailed
        exact absurd h (ForkReport.failure_ne_candidate _ _ _)
      split at hfailed
      · obtain rfl := Except.error.inj hfailed
        exact absurd h (ForkReport.failure_ne_candidate _ _ _)
      · simp at hfailed
  next r t hcandidate =>
  have haccepts : Accepts c candidate t := by
    simp only [forkHistory] at hcandidate
    split at hcandidate
    · simp at hcandidate
    split at hcandidate
    · simp at hcandidate
    next r' t' hreconstruct =>
    obtain ⟨-, rfl⟩ := Prod.mk.inj (Except.ok.inj hcandidate)
    exact accepts_of_state hreconstruct
  split at h
  · exact absurd h (ForkReport.failure_ne_candidate _ _ _)
  next common hcommon =>
  split at h
  · exact absurd h (ForkReport.failure_ne_candidate _ _ _)
  next hpositive =>
  simp only [forkPlan] at h
  split at h
  · next ancestorId hancestor =>
      refine ⟨t, reorgPlan s t common current.length candidate.length ancestorId, haccepts, ?_,
        rfl, workOrder_eq_candidate_iff.mp h⟩
      simp only [if_neg hpositive, forkPlan, hancestor]
  · exact absurd h (ForkReport.failure_ne_candidate _ _ _)

omit [Primitives] in
/-- Without recovery only a candidate is preferred. -/
theorem storagePrefers_eq_ok {r : ForkReport} {plan : Option ReorgPlan}
    (h : storagePrefers r plan false = .ok ()) : r.result = .candidate := by
  simp only [storagePrefers] at h
  split at h
  · split at h
    · simp at h
    split at h
    · simp at h
    · simp at h
  · next hpreferred =>
      by_contra hne
      exact hpreferred ⟨hne, by simp⟩

/-- An extended history has more work. -/
theorem Accepts.work_snoc {c : ChainContext} {blocks : List Bytes} {bytes : Bytes}
    {s t : ChainState} (hpolicy : c.powPolicy.isSome) (h : Accepts c blocks s)
    (h' : Accepts c (blocks ++ [bytes]) t) : s.cumulativeWork.toNat < t.cumulativeWork.toNat := by
  obtain ⟨policy, hpolicy⟩ := Option.isSome_iff_exists.mp hpolicy
  obtain ⟨-, hreach⟩ := accepts_iff.mp h
  obtain ⟨-, hreach'⟩ := accepts_iff.mp h'
  obtain ⟨b, hdecode⟩ := hreach'.decode_of_mem (List.mem_append_right _ (List.mem_singleton_self _))
  have htargeted := hreach'.targeted hpolicy
  have hwork := htargeted.work
  have hvalid := htargeted.valid
  rw [historyHeaders_snoc hdecode] at hwork hvalid
  obtain ⟨-, hlt⟩ := targetValidate_eq_ok_iff.mp
    (hvalid b.header (List.mem_append_right _ (List.mem_singleton_self _)))
  have hone : 0 < headerWork b.header := Nat.div_pos (by omega) (Nat.succ_pos _)
  rw [hwork, (hreach.targeted hpolicy).work, List.map_append, List.sum_append, List.map_singleton,
    List.sum_singleton]
  exact Nat.lt_add_of_pos_right hone

/-! ## Atomic outcomes -/

/-- The history a successful call leaves. -/
def StorageCall.History (c : ChainContext) (d : StorageDevice σ) (x : σ) (blocks : List Bytes) :
    StorageCall → Prop
  | .create offered _ => blocks = offered
  | .apply offered _ _ => blocks = offered
  | .adopt offered _ => blocks = offered
  | .extend bytes _ => ∃ image v, d.persisted x = some image ∧ storageDecode c image = .ok v ∧
      blocks = v.blocks ++ [bytes]

/-- A published image is the encoding of a history with more work than what was stored. -/
structure Publishes (c : ChainContext) (d : StorageDevice σ) (x : σ) (image : Bytes)
    (blocks : List Bytes) (s : ChainState) : Prop where
  encoded : ∃ capacity, storageEncode c blocks capacity = .ok image
  work : ∀ stored v, d.persisted x = some stored → storageDecode c stored = .ok v →
    v.state.cumulativeWork.toNat < s.cumulativeWork.toNat

/-- The snapshot and the active state changed together, to a published history that
satisfies `H`, or not at all. -/
structure StorageOutcome.Atomic (c : ChainContext) (d : StorageDevice σ) (active : ChainState)
    (x : σ) (H : List Bytes → Prop) (o : StorageOutcome σ) : Prop where
  failed : ∀ status, o.status = .error status →
    d.persisted o.device = d.persisted x ∧ o.active = active
  done : o.status = .ok () → ∃ image blocks, d.persisted o.device = some image ∧
    storageDecode c image = .ok ⟨blocks, o.active⟩ ∧ H blocks ∧
    Publishes c d x image blocks o.active

section Atomic

variable {c : ChainContext} {d : StorageDevice σ} {active : ChainState} {x : σ}
  {H : List Bytes → Prop}

theorem StorageOutcome.Atomic.error {x' : σ} (hx : d.persisted x' = d.persisted x)
    (status : StorageStatus) :
    StorageOutcome.Atomic c d active x H ⟨.error status, active, x'⟩ where
  failed _ _ := ⟨hx, rfl⟩
  done h := by simp at h

theorem storageLocked_atomic {body : σ → StorageOutcome σ}
    (h : ∀ x', d.persisted x' = d.persisted x → (body x').Atomic c d active x H) :
    (storageLocked d active x body).Atomic c d active x H := by
  have hacquire := d.acquire_persisted x
  simp only [storageLocked]
  split
  · next status x' hx =>
      rw [hx] at hacquire
      exact .error hacquire _
  · next x' hx =>
      rw [hx] at hacquire
      obtain ⟨hfailed, hdone⟩ := h x' hacquire
      constructor
      · intro status hstatus
        rw [d.release_persisted]
        exact hfailed status hstatus
      · intro hstatus
        rw [d.release_persisted]
        exact hdone hstatus

theorem storageCommit_atomic {image : Except StorageStatus Bytes} {blocks : List Bytes}
    {next : ChainState} {x' : σ} (hx : d.persisted x' = d.persisted x)
    (hpolicy : c.powPolicy.isSome) (haccepts : Accepts c blocks next) {capacity : ℕ}
    (himage : image = storageEncode c blocks capacity) (hH : H blocks)
    (hwork : ∀ stored v, d.persisted x = some stored → storageDecode c stored = .ok v →
      v.state.cumulativeWork.toNat < next.cumulativeWork.toNat) :
    (storageCommit d image next active x').Atomic c d active x H := by
  cases image with
  | error status => exact .error hx status
  | ok image' =>
      have herror := d.replace_error image' x'
      have hok := d.replace_ok image' x'
      simp only [storageCommit]
      split
      · next status x'' hreplace =>
          rw [hreplace] at herror
          exact .error ((herror status rfl).trans hx) _
      · next x'' hreplace =>
          rw [hreplace] at hok
          refine ⟨by simp, fun _ => ⟨image', blocks, hok rfl, ?_, hH,
            ⟨capacity, himage.symm⟩, hwork⟩⟩
          exact storageDecode_of_encode hpolicy haccepts himage.symm

theorem readLocked_spec (c : ChainContext) (d : StorageDevice σ) (capacity : ℕ) (x : σ) :
    d.persisted (readLocked c d capacity x).2 = d.persisted x ∧
      ∀ image v, (readLocked c d capacity x).1 = .ok (image, v) →
        d.persisted x = some image ∧ storageDecode c image = .ok v := by
  have hread := d.read_persisted capacity x
  have hok := d.read_ok capacity x
  simp only [readLocked]
  split
  · next status x' hx =>
      rw [hx] at hread
      exact ⟨hread, by simp⟩
  next image x' hx =>
  rw [hx] at hread hok
  split
  · exact ⟨hread, by simp⟩
  · refine ⟨hread, fun image' v h => ?_⟩
    cases hdecode : storageDecode c image with
    | error status => simp [hdecode, Except.map] at h
    | ok v' =>
        rw [hdecode] at h
        obtain ⟨rfl, rfl⟩ := Prod.mk.inj (Except.ok.inj h)
        exact ⟨hok image rfl, hdecode⟩

/-- What a load returns is the decoded image. -/
theorem storageLoad_decoded {capacity : ℕ} {view : StorageView}
    (h : (storageLoad c d capacity x).1 = .ok view) :
    ∃ image, d.persisted x = some image ∧ storageDecode c image = .ok view := by
  have hacquire := d.acquire_persisted x
  simp only [storageLoad] at h
  split at h
  · cases h
  next x' hx =>
  rw [hx] at hacquire
  have hread := (readLocked_spec c d capacity x').2
  cases hlocked : (readLocked c d capacity x').1 with
  | error status =>
      rw [hlocked] at h
      cases h
  | ok loaded =>
      obtain ⟨hpersisted, hdecode⟩ := hread loaded.1 loaded.2 hlocked
      rw [hlocked] at h
      obtain rfl := Except.ok.inj h
      exact ⟨loaded.1, hacquire ▸ hpersisted, hdecode⟩

theorem storageCreate_atomic (blocks : List Bytes) (capacity : ℕ) :
    (storageCreate c d blocks capacity active x).Atomic c d active x (· = blocks) := by
  simp only [storageCreate]
  split
  · exact .error rfl _
  next state hvalid =>
  obtain ⟨hpolicy, haccepts⟩ := storageValidate_eq_ok_iff.mp hvalid
  apply storageLocked_atomic
  intro x' hx'
  have hread := d.read_persisted 0 x'
  have hmissing := d.read_notFound 0 x'
  split
  · next image x'' hx'' =>
      rw [hx''] at hread
      exact .error (hread.trans hx') _
  next status x'' hx'' =>
  rw [hx''] at hread hmissing
  split
  · next hstatus =>
      have hnotFound : status = .notFound := by
        cases status <;> simp_all [ioStatus]
      have hnone : d.persisted x = none := by
        rw [← hx']
        exact hmissing (congrArg _ hnotFound)
      refine storageCommit_atomic (hread.trans hx') hpolicy haccepts rfl rfl ?_
      intro stored v hstored
      rw [hnone] at hstored
      cases hstored
  split
  · exact .error (hread.trans hx') _
  · exact .error (hread.trans hx') _

theorem storageApply_atomic (blocks : List Bytes) (plan : ReorgPlan) (w : StorageWorkspace) :
    (storageApply c d blocks plan w active x).Atomic c d active x (· = blocks) := by
  apply storageLocked_atomic
  intro x' hx'
  obtain ⟨hread, hcurrent⟩ := readLocked_spec c d w.currentCapacity x'
  split
  · next status x'' hx'' =>
      rw [hx''] at hread
      exact .error (hread.trans hx') _
  next image current x'' hx'' =>
  rw [hx''] at hread hcurrent
  obtain ⟨hstored, hdecode⟩ := hcurrent image current rfl
  obtain ⟨hpolicy, haccepts, -⟩ := storageDecode_image hdecode
  have hx := hread.trans hx'
  split
  · exact .error hx _
  split
  next r fresh hfork =>
  split
  · exact .error hx _
  next hprefers =>
  have hresult : (forkEvaluateHistory c current.blocks blocks).1.result = .candidate := by
    rw [hfork]
    exact storagePrefers_eq_ok hprefers
  obtain ⟨t, plan', hcandidate, hplan, rfl, hwork⟩ := forkEvaluateHistory_candidate haccepts hresult
  split
  · exact .error hx _
  next fresh =>
  split
  · exact .error hx _
  rw [hfork] at hplan
  obtain rfl := Option.some.inj hplan
  refine storageCommit_atomic hx hpolicy hcandidate rfl rfl ?_
  intro stored v hstored' hv
  obtain rfl := Option.some.inj ((hx' ▸ hstored).symm.trans hstored')
  obtain rfl := Except.ok.inj (hdecode.symm.trans hv)
  exact hwork

theorem storageExtend_atomic (bytes : Bytes) (w : StorageWorkspace) :
    (storageExtend c d bytes w active x).Atomic c d active x fun blocks =>
      ∃ image v, d.persisted x = some image ∧ storageDecode c image = .ok v ∧
        blocks = v.blocks ++ [bytes] := by
  apply storageLocked_atomic
  intro x' hx'
  obtain ⟨hread, hcurrent⟩ := readLocked_spec c d w.currentCapacity x'
  split
  · next status x'' hx'' =>
      rw [hx''] at hread
      exact .error (hread.trans hx') _
  next image current x'' hx'' =>
  rw [hx''] at hread hcurrent
  obtain ⟨hstored, hdecode⟩ := hcurrent image current rfl
  obtain ⟨hpolicy, haccepts, digest, himage⟩ := storageDecode_image hdecode
  have hx := hread.trans hx'
  rw [hx'] at hstored
  split
  · exact .error hx _
  split
  · exact .error hx _
  next hcount =>
  split
  · exact .error hx _
  next r next hreconstruct =>
  have hnext := accepts_of_state hreconstruct
  have hencode : extendImage c image current.blocks bytes w.nextCapacity =
      storageEncode c (current.blocks ++ [bytes]) w.nextCapacity := by
    rw [himage]
    exact extendImage_eq_encode hpolicy hcount hnext
  refine storageCommit_atomic hx hpolicy hnext hencode ⟨image, current, hstored, hdecode, rfl⟩ ?_
  intro stored v hstored' hv
  obtain rfl := Option.some.inj (hstored.symm.trans hstored')
  obtain rfl := Except.ok.inj (hdecode.symm.trans hv)
  exact haccepts.work_snoc hpolicy hnext

theorem storageAdoptOn_atomic (blocks : List Bytes) (w : StorageWorkspace) :
    (storageAdoptOn c d blocks w active x).Atomic c d active x (· = blocks) := by
  simp only [storageAdoptOn]
  split
  · exact .error rfl _
  next candidate hvalid =>
  obtain ⟨hpolicy, haccepts⟩ := storageValidate_eq_ok_iff.mp hvalid
  apply storageLocked_atomic
  intro x' hx'
  have hread := d.read_persisted w.currentCapacity x'
  have hok := d.read_ok w.currentCapacity x'
  have hmissing := d.read_notFound w.currentCapacity x'
  have hx := hread.trans hx'
  split
  · exact .error hx _
  next stored recovery hrecovery =>
  split
  · exact .error hx _
  next hprefers =>
  refine storageCommit_atomic hx hpolicy haccepts rfl rfl ?_
  intro image v himage hv
  -- What is stored decodes, so nothing is recovered and the fork choice decides.
  obtain ⟨hview, hflag⟩ : stored = v ∧ recovery = false := by
    rw [← hx'] at himage
    simp only [recoveryLocked] at hrecovery
    split at hrecovery
    · simp at hrecovery
    split at hrecovery
    · simp at hrecovery
    split at hrecovery
    · next status hstatus =>
        split at hrecovery
        · next hnotFound =>
            have hstatus' : status = .notFound := by
              cases status <;> simp_all [ioStatus]
            rw [hmissing (hstatus.trans (congrArg _ hstatus'))] at himage
            cases himage
        · simp at hrecovery
    next image' himage' =>
    obtain rfl := Option.some.inj ((hok image' himage').symm.trans himage)
    split at hrecovery
    · simp at hrecovery
    rw [hv] at hrecovery
    obtain ⟨rfl, rfl⟩ := Prod.mk.inj (Except.ok.inj hrecovery)
    exact ⟨rfl, rfl⟩
  subst hview hflag
  obtain ⟨-, hstored, -⟩ := storageDecode_image hv
  rw [if_neg (accepts_iff.mp hstored).1] at hprefers
  obtain ⟨t, plan, hcandidate, -, -, hwork⟩ :=
    forkEvaluateHistory_candidate hstored (storagePrefers_eq_ok hprefers)
  rwa [(accepts_iff.mp hcandidate).2.unique (accepts_iff.mp haccepts).2] at hwork

/-- Every call is atomic. -/
theorem StorageCall.run_atomic (call : StorageCall) :
    (call.run c d active x).Atomic c d active x (call.History c d x) := by
  cases call with
  | create blocks capacity => exact storageCreate_atomic blocks capacity
  | apply blocks plan w => exact storageApply_atomic blocks plan w
  | extend bytes w => exact storageExtend_atomic bytes w
  | adopt blocks w => exact storageAdoptOn_atomic blocks w

/-- No outcome of a call separates the stored image from the active state: a failure leaves
both, a success leaves an image that decodes to the new active history and state. -/
theorem storage_atomic (c : ChainContext) (d : StorageDevice σ) (call : StorageCall)
    (active : ChainState) (x : σ) :
    (∀ status, (call.run c d active x).status = .error status →
      d.persisted (call.run c d active x).device = d.persisted x ∧
        (call.run c d active x).active = active) ∧
    ((call.run c d active x).status = .ok () → ∃ image blocks,
      d.persisted (call.run c d active x).device = some image ∧
        storageDecode c image = .ok ⟨blocks, (call.run c d active x).active⟩ ∧
        call.History c d x blocks) := by
  obtain ⟨hfailed, hdone⟩ := StorageCall.run_atomic (c := c) (d := d) (x := x) call
  refine ⟨hfailed, fun hstatus => ?_⟩
  obtain ⟨image, blocks, himage, hdecode, hhistory, -⟩ := hdone hstatus
  exact ⟨image, blocks, himage, hdecode, hhistory⟩

end Atomic

/-! ## Extension -/

/-- The image of a history does not depend on the room it is encoded in. -/
theorem storageEncode_of_length_le {c : ChainContext} {blocks : List Bytes} {capacity : ℕ}
    {image : Bytes} (h : storageEncode c blocks capacity = .ok image) {capacity' : ℕ}
    (hle : image.length ≤ capacity') : storageEncode c blocks capacity' = .ok image := by
  obtain ⟨hcount, digest, hdigest, rfl⟩ := storageEncode_eq_ok h
  rw [List.length_append, length_octetBytes] at hle
  have hlimit : ¬blocks.length > 2 ^ 32 - 1 := by omega
  simp only [storageEncode, if_neg hlimit] at h ⊢
  split at h
  · simp at h
  · simp only [if_neg (not_lt.mpr hle), hdigest]

omit [Primitives] in
theorem stateEqual_refl {s : ChainState} (h : s.targetHistory.length ≤ 60) :
    stateEqual s s = true := by
  simp [stateEqual, h]

/-- The extension of a stored history by a block it accepts succeeds when the provider
does and there is room. -/
theorem storageExtend_of_accepts {c : ChainContext} {d : StorageDevice σ} {bytes : Bytes}
    {w : StorageWorkspace} {x y z : σ} {stored image : Bytes} {v : StorageView}
    {next : ChainState} (hacquire : d.acquire x = (.ok (), y))
    (hread : d.read w.currentCapacity y = (.ok stored, z))
    (hfits : stored.length ≤ w.currentCapacity) (hv : storageDecode c stored = .ok v)
    (hcount : v.blocks.length < 2 ^ 32 - 1) (hnext : Accepts c (v.blocks ++ [bytes]) next)
    (himage : storageEncode c (v.blocks ++ [bytes]) w.nextCapacity = .ok image)
    (hreplace : (d.replace image z).1 = .ok ()) :
    (storageExtend c d bytes w v.state x).status = .ok () := by
  obtain ⟨hpolicy, haccepts, digest, hstored⟩ := storageDecode_image hv
  obtain ⟨policy, hsome⟩ := Option.isSome_iff_exists.mp hpolicy
  have htargeted := (accepts_iff.mp haccepts).2.targeted hsome
  have hwindow : v.state.targetHistory.length ≤ 60 := by
    rw [htargeted.window, List.length_map]
    exact Epochs.length_current_le (by norm_num) _
  have hsame : ¬(!stateEqual v.state v.state) = true := by
    rw [stateEqual_refl hwindow]
    exact Bool.false_ne_true
  have hroom : ¬v.blocks.length ≥ 2 ^ 32 - 1 := Nat.not_le.mpr hcount
  have hextend : extendImage c stored v.blocks bytes w.nextCapacity = .ok image := by
    rw [hstored, extendImage_eq_encode hpolicy hroom hnext, himage]
  have hlocked : readLocked c d w.currentCapacity y = (.ok (stored, v), z) := by
    simp only [readLocked, hread, if_neg (Nat.not_lt.mpr hfits), hv]
    rfl
  rw [Accepts] at hnext
  simp only [storageExtend, storageLocked, hacquire, hlocked, if_neg hsame, if_neg hroom, hnext,
    storageCommit, hextend]
  split
  · next status z' hfailed =>
      rw [hfailed] at hreplace
      cases hreplace
  · rfl

/-- A granted load that is given the stored image, with room for it, is what the image decodes
to. -/
theorem storageLoad_of_image {c : ChainContext} {d : StorageDevice σ} {capacity : ℕ} {image : Bytes}
    {view : StorageView} {x : σ} (hacquire : (d.acquire x).1 = .ok ())
    (hread : (d.read capacity (d.acquire x).2).1 = .ok image) (hfits : image.length ≤ capacity)
    (hdecode : storageDecode c image = .ok view) :
    (storageLoad c d capacity x).1 = .ok view := by
  unfold storageLoad
  split
  · next status y hy =>
      rw [hy] at hacquire
      cases hacquire
  next y hy =>
  rw [hy] at hread
  have hlocked : (readLocked c d capacity y).1 = .ok (image, view) := by
    unfold readLocked
    split
    · next status z hz =>
        rw [hz] at hread
        cases hread
    next image' z hz =>
    rw [hz] at hread
    obtain rfl := Except.ok.inj hread
    rw [if_neg (Nat.not_lt.mpr hfits), hdecode]
    rfl
  simp only [hlocked]
  rfl

/-- A successful extension commits, octet for octet, the encoding of the extended history,
and the state it makes active is the one that this image is decoded to: by every load that is
granted and given the image, and by no load to anything else. -/
theorem extension_encodes {c : ChainContext} {d : StorageDevice σ} {bytes : Bytes}
    {w : StorageWorkspace} {active : ChainState} {x : σ}
    (h : (storageExtend c d bytes w active x).status = .ok ()) :
    ∃ stored v image, d.persisted x = some stored ∧ storageDecode c stored = .ok v ∧
      d.persisted (storageExtend c d bytes w active x).device = some image ∧
      (∀ capacity, image.length ≤ capacity →
        storageEncode c (v.blocks ++ [bytes]) capacity = .ok image) ∧
      storageDecode c image =
        .ok ⟨v.blocks ++ [bytes], (storageExtend c d bytes w active x).active⟩ ∧
      ∀ y capacity, d.persisted y = some image →
        (∀ view, (storageLoad c d capacity y).1 = .ok view →
          view = ⟨v.blocks ++ [bytes], (storageExtend c d bytes w active x).active⟩) ∧
        ((d.acquire y).1 = .ok () → (d.read capacity (d.acquire y).2).1 = .ok image →
          image.length ≤ capacity → (storageLoad c d capacity y).1 =
            .ok ⟨v.blocks ++ [bytes], (storageExtend c d bytes w active x).active⟩) := by
  obtain ⟨image, blocks, himage, hdecode, ⟨stored, v, hstored, hv, rfl⟩, ⟨capacity, hencode⟩, -⟩ :=
    (storageExtend_atomic bytes w).done h
  refine ⟨stored, v, image, hstored, hv, himage,
    fun _ hle => storageEncode_of_length_le hencode hle, hdecode, fun y capacity' hy =>
      ⟨fun view hload => ?_, fun hacquire hread hfits =>
        storageLoad_of_image hacquire hread hfits hdecode⟩⟩
  have hacquire := d.acquire_persisted y
  simp only [storageLoad] at hload
  split at hload
  · simp at hload
  next y' hy' =>
  rw [hy'] at hacquire
  obtain ⟨-, hread⟩ := readLocked_spec c d capacity' y'
  cases hlocked : (readLocked c d capacity' y').1 with
  | error status => simp [hlocked, Except.map] at hload
  | ok loaded =>
      obtain ⟨image', view'⟩ := loaded
      obtain ⟨hpersisted, hview⟩ := hread image' view' hlocked
      rw [hlocked] at hload
      obtain rfl := Except.ok.inj hload
      rw [hacquire, hy] at hpersisted
      obtain rfl := Option.some.inj hpersisted
      exact Except.ok.inj (hview.symm.trans hdecode)

/-! ## Runs -/

/-- The active state and the provider after some calls. -/
def storageRun (c : ChainContext) (d : StorageDevice σ) (calls : List StorageCall)
    (active : ChainState) (x : σ) : ChainState × σ :=
  calls.foldl (fun p call => ((call.run c d p.1 p.2).active, (call.run c d p.1 p.2).device))
    (active, x)

/-- A provider state holds the image of a view. -/
def Holds (c : ChainContext) (d : StorageDevice σ) (x : σ) (v : StorageView) : Prop :=
  ∃ image, d.persisted x = some image ∧ storageDecode c image = .ok v

theorem StorageCall.run_holds {c : ChainContext} {d : StorageDevice σ} {x : σ} {v : StorageView}
    (h : Holds c d x v) (call : StorageCall) (active : ChainState) :
    ∃ v', Holds c d (call.run c d active x).device v' ∧
      v.state.cumulativeWork.toNat ≤ v'.state.cumulativeWork.toNat ∧
      ((call.run c d active x).status = .ok () →
        v.state.cumulativeWork.toNat < v'.state.cumulativeWork.toNat ∧
          (call.run c d active x).active = v'.state) := by
  obtain ⟨stored, hstored, hv⟩ := h
  obtain ⟨hfailed, hdone⟩ : (call.run c d active x).Atomic c d active x (call.History c d x) :=
    call.run_atomic
  cases hstatus : (call.run c d active x).status with
  | error status =>
      refine ⟨v, ⟨stored, (hfailed status hstatus).1.trans hstored, hv⟩, le_rfl, ?_⟩
      intro hok
      cases hok
  | ok _ =>
      obtain ⟨image, blocks, himage, hdecode, -, -, hwork⟩ := hdone hstatus
      have hlt := hwork stored v hstored hv
      exact ⟨_, ⟨image, himage, hdecode⟩, hlt.le, fun _ => ⟨hlt, rfl⟩⟩

theorem storageRun_holds {c : ChainContext} {d : StorageDevice σ} {x : σ} {v : StorageView}
    (h : Holds c d x v) (calls : List StorageCall) (active : ChainState) :
    ∃ v', Holds c d (storageRun c d calls active x).2 v' ∧
      v.state.cumulativeWork.toNat ≤ v'.state.cumulativeWork.toNat := by
  induction calls generalizing v active x with
  | nil => exact ⟨v, h, le_rfl⟩
  | cons call calls ih =>
      obtain ⟨v₁, h₁, hle, -⟩ := call.run_holds h active
      obtain ⟨v₂, h₂, hle'⟩ := ih h₁ (call.run c d active x).active
      exact ⟨v₂, h₂, hle.trans hle'⟩

/-- From a stored history on, at every call of every run: the stored history stays
accepted, its work never decreases, and a success increases it and leaves the stored state
active. -/
theorem stored_work_grows {c : ChainContext} {d : StorageDevice σ} {x : σ} {v : StorageView}
    (h : Holds c d x v) (active : ChainState) (calls : List StorageCall) (call : StorageCall) :
    ∃ before after, Holds c d (storageRun c d calls active x).2 before ∧
      Holds c d (storageRun c d (calls ++ [call]) active x).2 after ∧
      v.state.cumulativeWork.toNat ≤ before.state.cumulativeWork.toNat ∧
      before.state.cumulativeWork.toNat ≤ after.state.cumulativeWork.toNat ∧
      ((call.run c d (storageRun c d calls active x).1
          (storageRun c d calls active x).2).status = .ok () →
        before.state.cumulativeWork.toNat < after.state.cumulativeWork.toNat ∧
          (storageRun c d (calls ++ [call]) active x).1 = after.state) := by
  obtain ⟨before, hbefore, hle⟩ := storageRun_holds h calls active
  obtain ⟨after, hafter, hle', hdone⟩ := call.run_holds hbefore (storageRun c d calls active x).1
  have hsnoc : storageRun c d (calls ++ [call]) active x =
      ((call.run c d (storageRun c d calls active x).1 (storageRun c d calls active x).2).active,
        (call.run c d (storageRun c d calls active x).1
          (storageRun c d calls active x).2).device) :=
    List.foldl_concat ..
  rw [hsnoc]
  exact ⟨before, after, hbefore, hafter, hle, hle', hdone⟩

end

section Sample

attribute [local instance] Sample.storing

namespace Sample

/-- A provider that keeps its snapshot in memory. -/
def memory : StorageDevice (Option Bytes) where
  persisted x := x
  acquire x := (.ok (), x)
  release x := x
  read capacity x :=
    match x with
    | none => (.error .notFound, x)
    | some image => (if image.length > capacity then .error .capacity else .ok image, x)
  replace image _ := (.ok (), some image)
  acquire_persisted _ := rfl
  release_persisted _ := rfl
  read_persisted capacity x := by
    cases x <;> rfl
  read_ok capacity x image h := by
    cases x with
    | none => cases h
    | some stored =>
        simp only at h
        split at h
        · cases h
        · rw [Except.ok.inj h]
  read_notFound capacity x h := by
    cases x with
    | none => rfl
    | some stored =>
        simp only at h
        split at h
        · cases h
        · cases h
  replace_ok _ _ _ := rfl
  replace_error _ _ _ h := by cases h

/-- The sample block after the genesis block is stored. -/
theorem memory_extends : ∃ v, Holds storingContext memory (some (imageOf [genesis])) v ∧
    (storageExtend storingContext memory empty ⟨4096, 4096⟩ v.state
      (some (imageOf [genesis]))).status = .ok () := by
  obtain ⟨t, ht, -⟩ := accepts_genesis
  obtain ⟨s, hs, -⟩ := accepts_of_any storingContext _ _ works_empty
  have hv := storageDecode_of_encode (by decide) ht
    (storageEncode_imageOf ht (by decide) (by decide +kernel))
  have hlength : (imageOf [genesis]).length ≤ 4096 := by decide +kernel
  have hread : memory.read 4096 (some (imageOf [genesis])) =
      (.ok (imageOf [genesis]), some (imageOf [genesis])) := by
    simp only [memory, if_neg (Nat.not_lt.mpr hlength)]
  have hcount : [genesis].length < 2 ^ 32 - 1 := by decide
  have himage : storageEncode storingContext ([genesis] ++ [empty]) 4096 =
      .ok (imageOf [genesis, empty]) :=
    storageEncode_imageOf hs (by decide) (by decide +kernel)
  exact ⟨⟨[genesis], t⟩, ⟨_, rfl, hv⟩,
    storageExtend_of_accepts rfl hread hlength hv hcount hs himage rfl⟩

end Sample

open Sample

theorem sample_extension_encodes : ∃ (active : ChainState) (image : Bytes) (v : StorageView),
    memory.persisted (storageExtend storingContext memory empty ⟨4096, 4096⟩ active
      (some (imageOf [genesis]))).device = some image ∧
    storageEncode storingContext (v.blocks ++ [empty]) image.length = .ok image ∧
    (storageLoad storingContext memory image.length (some image)).1 =
      .ok ⟨v.blocks ++ [empty], (storageExtend storingContext memory empty ⟨4096, 4096⟩ active
        (some (imageOf [genesis]))).active⟩ := by
  obtain ⟨v, -, hok⟩ := memory_extends
  obtain ⟨_, v', image, -, -, himage, hencode, -, hloads⟩ := extension_encodes hok
  have hread : (memory.read image.length (memory.acquire (some image)).2).1 = .ok image := by
    simp only [memory, gt_iff_lt, lt_self_iff_false, ↓reduceIte]
  exact ⟨v.state, image, v', himage, hencode _ le_rfl,
    (hloads (some image) image.length rfl).2 rfl hread le_rfl⟩

theorem sample_storage_codec : ∃ s, storageDecode storingContext (imageOf [genesis]) =
    .ok ⟨[genesis], s⟩ := by
  obtain ⟨t, ht, -⟩ := accepts_genesis
  obtain ⟨hencoded, -⟩ := storage_codec (c := storingContext) (by decide)
  exact ⟨t, (hencoded [genesis] t 4096 ht).2 _
    (storageEncode_imageOf ht (by decide) (by decide +kernel))⟩

theorem sample_stored_work : ∃ (active : ChainState) (before after : StorageView),
    Holds storingContext memory (some (imageOf [genesis])) before ∧
    Holds storingContext memory (storageRun storingContext memory [.extend empty ⟨4096, 4096⟩]
      active (some (imageOf [genesis]))).2 after ∧
    before.state.cumulativeWork.toNat < after.state.cumulativeWork.toNat := by
  obtain ⟨v, hv, hok⟩ := memory_extends
  obtain ⟨before, after, hbefore, hafter, -, -, hdone⟩ :=
    stored_work_grows hv v.state [] (.extend empty ⟨4096, 4096⟩)
  exact ⟨v.state, before, after, hbefore, hafter, (hdone hok).1⟩

end Sample

end StnChain
