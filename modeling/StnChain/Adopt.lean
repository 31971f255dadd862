import StnChain.Fork
import StnChain.Storage

/-!
# Adoption

How a stored history is replaced (`stn_storage.c`).  `storageEncode` makes the
image of a history and `storageAdopt` publishes it when the history has more work
than what is stored.  An encoded image decodes to the history it was made of.
-/

namespace StnChain

section

variable [Primitives]

/-! ## Encoding -/

/-- The octets of a stored image before its digest. -/
def storageSigned (blocks : List Bytes) : Bytes :=
  [0x53, 0x54, 0x4e, 0x53] ++ wireWrite 2 1 ++ wireWrite 2 0 ++ wireWrite 4 blocks.length ++
    bodyBytes blocks

/-- `stn_storage_encode`. -/
def storageEncode (c : ChainContext) (blocks : List Bytes) (capacity : ℕ) :
    Except StorageStatus Bytes :=
  if blocks.length > 2 ^ 32 - 1 then .error .capacity
  else
    match storageValidate c blocks with
    | .error status => .error status
    | .ok _ =>
        if (storageSigned blocks).length + 32 > capacity then .error .capacity
        else
          match storageDigest c (storageSigned blocks) with
          | .error status => .error status
          | .ok digest => .ok (storageSigned blocks ++ octetBytes digest)

/-! ## Publication -/

/-- `stn_storage_provider` with its `replace`, which publishes an image whole or fails. -/
structure StorageStore extends StorageProvider where
  replace : Bytes → Except StorageStatus Unit

/-- `stn_storage_workspace`. -/
structure StorageWorkspace where
  currentCapacity : ℕ
  nextCapacity : ℕ

/-- The fork choice of `stn_storage_adopt`; a recovered history may be replaced by a
history with its tip. -/
def storagePrefers (r : ForkReport) (plan : Option ReorgPlan) (recovery : Bool) :
    Except StorageStatus Unit :=
  let sameTip := plan.all fun plan => plan.current.tipId = plan.candidate.tipId
  if r.result ≠ .candidate ∧ ¬(recovery ∧ r.result = .tie ∧ sameTip) then
    if r.result = .current ∨ r.result = .tie then .error .notPreferred
    else if r.result = .unresolved then .error .unresolved
    else .error .validation
  else .ok ()

/-- The end of `stn_storage_adopt`: the published image and the new active state. -/
def storagePublish (c : ChainContext) (p : StorageStore) (blocks : List Bytes)
    (w : StorageWorkspace) (candidate : ChainState) : Except StorageStatus (Bytes × ChainState) :=
  match storageEncode c blocks w.nextCapacity with
  | .error status => .error status
  | .ok image =>
      match p.replace image with
      | .error status => .error (ioStatus status)
      | .ok () => .ok (image, candidate)

/-- `stn_storage_adopt`. -/
def storageAdopt (c : ChainContext) (p : StorageStore) (blocks : List Bytes)
    (w : StorageWorkspace) : Except StorageStatus (Bytes × ChainState) :=
  match storageValidate c blocks with
  | .error status => .error status
  | .ok candidate =>
      match p.acquire with
      | .error status => .error (ioStatus status)
      | .ok () =>
          match recoveryLocked c p.toStorageProvider w.currentCapacity with
          | .error status => .error status
          | .ok (stored, recovery) =>
              if stored.blocks = [] then storagePublish c p blocks w candidate
              else
                let (r, plan) := forkEvaluateHistory c stored.blocks blocks
                match storagePrefers r plan recovery with
                | .error status => .error status
                | .ok () => storagePublish c p blocks w candidate

/-! ## Validation -/

theorem storageValidate_eq_ok_iff {c : ChainContext} {blocks : List Bytes} {s : ChainState} :
    storageValidate c blocks = .ok s ↔ c.powPolicy.isSome ∧ Accepts c blocks s := by
  simp only [storageValidate]
  split
  · next hrefused =>
      constructor
      · simp
      · rintro ⟨hpolicy, haccepts⟩
        rcases hrefused with hnil | hnone
        · exact absurd hnil (accepts_iff.mp haccepts).1
        · simp [Option.isNone_iff_eq_none.mp hnone] at hpolicy
  next hoffered =>
  obtain ⟨hne, hpolicy⟩ := not_or.mp hoffered
  have hsome : c.powPolicy.isSome = true := by
    simpa [Option.isSome_iff_ne_none] using hpolicy
  simp only [hsome, true_and]
  split
  · next r s' hvalid =>
      have haccepts := accepts_of_state hvalid
      constructor
      · intro h
        obtain rfl := Except.ok.inj h
        exact haccepts
      · intro h
        rw [(accepts_iff.mp haccepts).2.unique (accepts_iff.mp h).2]
  · next r hvalid =>
      have hrefused : ¬Accepts c blocks s := by
        intro h
        rw [Accepts, hvalid] at h
        simp at h
      split <;> simp [hrefused]

theorem storageEncode_eq_ok {c : ChainContext} {blocks : List Bytes} {capacity : ℕ}
    {image : Bytes} (h : storageEncode c blocks capacity = .ok image) :
    blocks.length < 2 ^ 32 ∧ ∃ digest, storageDigest c (storageSigned blocks) = .ok digest ∧
      image = storageSigned blocks ++ octetBytes digest := by
  simp only [storageEncode] at h
  split at h
  · simp at h
  next hcount =>
  split at h
  · simp at h
  split at h
  · simp at h
  split at h
  · simp at h
  next digest hdigest =>
  exact ⟨by omega, digest, hdigest, (Except.ok.inj h).symm⟩

/-! ## The round trip -/

/-- A block a stored image can hold. -/
def Storable (bytes : Bytes) : Prop :=
  blockHeaderSize ≤ bytes.length ∧ bytes.length ≤ blockMaxSize

theorem storable_of_decode {bytes : Bytes} {b : Block} (h : blockDecode bytes = .ok b) :
    Storable bytes := by
  simp only [blockDecode] at h
  split at h
  · simp at h
  next hsize =>
  simp only [not_or, not_lt] at hsize
  exact hsize

theorem Reaches.storable {c : ChainContext} {blocks : List Bytes} {s : ChainState}
    (h : Reaches c blocks s) : ∀ bytes ∈ blocks, Storable bytes := by
  intro bytes hbytes
  obtain ⟨b, hdecode⟩ := h.decode_of_mem hbytes
  exact storable_of_decode hdecode

omit [Primitives] in
theorem storedBlock_bodyBytes {bytes : Bytes} (h : Storable bytes) (rest : List Bytes) :
    storedBlock (bodyBytes (bytes :: rest)) = some (bytes, bodyBytes rest) := by
  obtain ⟨hmin, hmax⟩ := h
  have hlimit : bytes.length < 256 ^ 4 := by
    apply Nat.lt_of_le_of_lt hmax
    decide
  have hread : wireRead (bodyBytes (bytes :: rest)) 0 4 = bytes.length := by
    rw [bodyBytes_cons, List.append_assoc, wireRead_append_left (by simp)]
    exact wireRead_wireWrite hlimit
  have hlength : (bodyBytes (bytes :: rest)).length =
      4 + bytes.length + (bodyBytes rest).length := by
    simp [bodyBytes_cons, Nat.add_assoc]
  have hsize : ¬(bodyBytes (bytes :: rest)).length < 4 := by omega
  have hkept : ¬(bytes.length < blockHeaderSize ∨ bytes.length > blockMaxSize ∨
      bytes.length > (bodyBytes (bytes :: rest)).length - 4) := by omega
  simp only [storedBlock, if_neg hsize, hread, if_neg hkept, take_drop_bodyBytes_cons,
    drop_bodyBytes_cons]

omit [Primitives] in
theorem storedBlocks_bodyBytes {blocks : List Bytes} (h : ∀ bytes ∈ blocks, Storable bytes) :
    storedBlocks blocks.length (bodyBytes blocks) = some blocks := by
  induction blocks with
  | nil => rfl
  | cons bytes rest ih =>
      have hrest := ih fun other hother => h other (List.mem_cons_of_mem bytes hother)
      simp only [List.length_cons, storedBlocks, storedBlock_bodyBytes (h bytes List.mem_cons_self),
        hrest, Option.map_some]

omit [Primitives] in
theorem length_storedBytes {blocks : List Bytes} (h : ∀ bytes ∈ blocks, Storable bytes) :
    blocks.length * storedBlockMin ≤ (bodyBytes blocks).length := by
  induction blocks with
  | nil => simp
  | cons bytes rest ih =>
      have hrest := ih fun other hother => h other (List.mem_cons_of_mem bytes hother)
      have hmin := (h bytes List.mem_cons_self).1
      rw [bodyBytes_cons, List.length_cons, Nat.succ_mul]
      simp only [List.length_append, length_wireWrite, storedBlockMin] at *
      omega

omit [Primitives] in
theorem length_storageSigned (blocks : List Bytes) :
    (storageSigned blocks).length = 12 + (bodyBytes blocks).length := by
  simp [storageSigned]
  omega

/-- An encoded image decodes to the history it was made of. -/
theorem storageDecode_of_encode {c : ChainContext} {blocks : List Bytes} {capacity : ℕ}
    {image : Bytes} {s : ChainState} (hpolicy : c.powPolicy.isSome) (hblocks : Accepts c blocks s)
    (h : storageEncode c blocks capacity = .ok image) :
    storageDecode c image = .ok ⟨blocks, s⟩ := by
  obtain ⟨hne, hreach⟩ := accepts_iff.mp hblocks
  obtain ⟨hcount, digest, hdigest, rfl⟩ := storageEncode_eq_ok h
  have hstorable := hreach.storable
  have hbody := length_storedBytes hstorable
  have hlength : (storageSigned blocks ++ octetBytes digest).length =
      44 + (bodyBytes blocks).length := by
    simp only [List.length_append, length_storageSigned, length_octetBytes]
    omega
  have hsigned : (storageSigned blocks ++ octetBytes digest).length - 32 =
      (storageSigned blocks).length := by
    simp
  have hformat : storageFormat (storageSigned blocks ++ octetBytes digest) = true := by
    simp [storageFormat, storageSigned, wireWrite, BigEndian.write, wireRead, BigEndian.field,
      BigEndian.read]
  have hread : wireRead (storageSigned blocks ++ octetBytes digest) 8 4 = blocks.length := by
    have hlimit : blocks.length < 256 ^ 4 := by simpa using hcount
    simp only [storageSigned, List.append_assoc]
    rw [wireRead_append_right (by simp), wireRead_append_right (by simp),
      wireRead_append_right (by simp), wireRead_append_left (by simp)]
    simpa using wireRead_wireWrite hlimit
  have hpositive : blocks.length ≠ 0 := by simpa using hne
  have hfits : ¬(blocks.length = 0 ∨ blocks.length >
      ((storageSigned blocks ++ octetBytes digest).length - storageOverhead) / storedBlockMin) := by
    rw [not_or, not_lt, Nat.le_div_iff_mul_le (by decide), hlength]
    exact ⟨hpositive, by simp only [storageOverhead]; omega⟩
  have hstart : ¬((storageSigned blocks ++ octetBytes digest).length < storageOverhead ∨
      (!storageFormat (storageSigned blocks ++ octetBytes digest)) = true) := by
    rw [hformat, hlength]
    simp [storageOverhead]
  have hdrop : (storageSigned blocks).drop 12 = bodyBytes blocks := by
    rw [storageSigned, List.drop_left' (by simp)]
  have htail : octetsAt (storageSigned blocks ++ octetBytes digest)
      (storageSigned blocks).length 32 = digest := by
    rw [octetsAt_append_right le_rfl, Nat.sub_self, octetsAt_octetBytes]
  have hvalid := storageValidate_eq_ok_iff.mpr ⟨hpolicy, hblocks⟩
  simp only [storageDecode, if_neg hstart, hread, if_neg hfits, hsigned, List.take_left, hdrop,
    storedBlocks_bodyBytes hstorable, hdigest, htail, ne_eq, not_true_eq_false, ↓reduceIte, hvalid]

/-! ## Adoption of a history with more work -/

/-- An accepted history starts with the genesis block. -/
theorem Accepts.head {c : ChainContext} {bytes : Bytes} {rest : List Bytes} {s : ChainState}
    (h : Accepts c (bytes :: rest) s) : bytes = c.genesisBytes := by
  have hreach : Reaches c ([] ++ bytes :: rest) s := (accepts_iff.mp h).2
  obtain ⟨prior, s', hprior, hstep, -⟩ := hreach.step_at
  obtain ⟨b, flags, candidate, hprepared, -⟩ := reconstructStep_eq_ok_iff.mp hstep
  have htip : prior.hasTip = false := by
    simpa using hprior.tipOf.hasTip.not
  have hlink := hprepared.link
  by_contra hne
  simp only [linkFailure, htip] at hlink
  split at hlink
  · simp at hlink
  · simp at hlink

theorem storagePublish_eq_ok {c : ChainContext} {p : StorageStore} {blocks : List Bytes}
    {w : StorageWorkspace} {candidate s : ChainState} {image : Bytes}
    (h : storagePublish c p blocks w candidate = .ok (image, s)) :
    storageEncode c blocks w.nextCapacity = .ok image ∧ s = candidate := by
  simp only [storagePublish] at h
  split at h
  · simp at h
  next image' hencode =>
  split at h
  · simp at h
  obtain ⟨rfl, rfl⟩ := Prod.mk.inj (Except.ok.inj h)
  exact ⟨hencode, rfl⟩

/-- What is published is the image of an accepted history. -/
theorem storageAdopt_eq_ok {c : ChainContext} {p : StorageStore} {blocks : List Bytes}
    {w : StorageWorkspace} {s : ChainState} {image : Bytes}
    (h : storageAdopt c p blocks w = .ok (image, s)) :
    Accepts c blocks s ∧ storageEncode c blocks w.nextCapacity = .ok image := by
  simp only [storageAdopt] at h
  split at h
  · simp at h
  next candidate hvalid =>
  split at h
  · simp at h
  split at h
  · simp at h
  have hpublish : storagePublish c p blocks w candidate = .ok (image, s) := by
    split at h
    · exact h
    split at h
    · simp at h
    · exact h
  obtain ⟨hencode, rfl⟩ := storagePublish_eq_ok hpublish
  exact ⟨(storageValidate_eq_ok_iff.mp hvalid).2, hencode⟩

/-- An accepted history with more work than the stored one is preferred to it. -/
theorem forkEvaluateHistory_of_work {c : ChainContext} {current candidate : List Bytes}
    {s t : ChainState} (hpolicy : c.powPolicy.isSome) (hcurrent : Accepts c current s)
    (hcandidate : Accepts c candidate t) (hwork : s.cumulativeWork < t.cumulativeWork) :
    (forkEvaluateHistory c current candidate).1.result = .candidate := by
  have hids := fun bytes (h : bytes ∈ current) => (accepts_iff.mp hcurrent).2.blockId_of_mem h
  have hids' := fun bytes (h : bytes ∈ candidate) => (accepts_iff.mp hcandidate).2.blockId_of_mem h
  obtain ⟨common, hcommon, hle, hzero⟩ := commonBlocks_eq_ok hids hids'
  have hpositive : common ≠ 0 := by
    intro h
    obtain ⟨left, lefts, rfl⟩ := List.exists_cons_of_ne_nil (accepts_iff.mp hcurrent).1
    obtain ⟨right, rights, rfl⟩ := List.exists_cons_of_ne_nil (accepts_iff.mp hcandidate).1
    apply hzero.mp h left right rfl rfl
    rw [hcurrent.head, hcandidate.head]
  have hsome : ¬c.powPolicy.isNone = true := by
    simpa [Option.isSome_iff_ne_none] using hpolicy
  obtain ⟨ancestorId, hplan, -⟩ :=
    forkPlan_of_le (r := { zeroForkReport with validation := acceptedReport c, result := .tie }) s t
      candidate.length hids (Nat.pos_of_ne_zero hpositive) hle
  simp only [forkEvaluateHistory, if_neg hsome, forkHistory_of_accepts hcurrent,
    forkHistory_of_accepts hcandidate, hcommon, if_neg hpositive, hplan, workOrder, if_pos hwork]

/-- A history with more work than the stored one is published. -/
theorem storageAdopt_of_work {c : ChainContext} {p : StorageStore} {blocks : List Bytes}
    {w : StorageWorkspace} {stored : StorageView} {recovery : Bool} {s t : ChainState}
    (hacquire : p.acquire = .ok ())
    (hread : recoveryLocked c p.toStorageProvider w.currentCapacity = .ok (stored, recovery))
    (hstored : Accepts c stored.blocks s) (hblocks : Accepts c blocks t)
    (hpolicy : c.powPolicy.isSome) (hwork : s.cumulativeWork < t.cumulativeWork) :
    storageAdopt c p blocks w = storagePublish c p blocks w t := by
  have hresult := forkEvaluateHistory_of_work hpolicy hstored hblocks hwork
  have hvalid := storageValidate_eq_ok_iff.mpr ⟨hpolicy, hblocks⟩
  simp [storageAdopt, hvalid, hacquire, hread, storagePrefers, hresult]

end

end StnChain

namespace StnChain.Sample

/-! ## A stored sample -/

/-- SHA-256 of the images the samples store, by residues modulo `2 ^ 61 - 1`. -/
def storageDigests : List (ℕ × ℕ) :=
  [(0x48524c9ced0c444,
      0x893b458be1d699bc6870bcc9624636ac84461105eef157e2ca609d39c41d689f),
   (0x1cf3a150f3e3215,
      0xa5331ecae2b594791625c46734560d7b81a3fa09e01f2c6d0fa16621d38fac1c)]

/-- SHA-256 as far as the stored samples ask for it. -/
@[reducible] def storing : Primitives where
  sha256 domain bytes := .ok (BitVec.ofNat 256 (((storageDigests ++ digests).lookup
    (BigEndian.read (domain ++ bytes) % (2 ^ 61 - 1))).getD 1))
  ed25519Verify _ _ _ := false

attribute [local instance] storing

/-- The sample context over these digests. -/
def storingContext : ChainContext :=
  { context with hashProvider := ⟨some storing.sha256⟩ }

/-- The image of some blocks. -/
def imageOf (blocks : List Bytes) : Bytes :=
  storageSigned blocks ++
    octetBytes ((storageDigest storingContext (storageSigned blocks)).toOption.getD 0)

theorem storageEncode_imageOf {blocks : List Bytes} {s : ChainState}
    (h : Accepts storingContext blocks s) (hcount : blocks.length < 2 ^ 32)
    (hsize : (storageSigned blocks).length + 32 ≤ 4096) :
    storageEncode storingContext blocks 4096 = .ok (imageOf blocks) := by
  have hvalid := storageValidate_eq_ok_iff.mpr ⟨by decide, h⟩
  have hfew : ¬blocks.length > 2 ^ 32 - 1 := by omega
  obtain ⟨digest, hdigest⟩ : ∃ digest,
      storageDigest storingContext (storageSigned blocks) = .ok digest := ⟨_, rfl⟩
  simp only [storageEncode, if_neg hfew, hvalid, if_neg (Nat.not_lt.mpr hsize), hdigest, imageOf]
  rfl

theorem accepts_genesis : ∃ t, Accepts storingContext [genesis] t ∧ t.cumulativeWork = 31 := by
  obtain ⟨t, ht, hwork⟩ := accepts_of_any storingContext [genesis]
    (fun t => t.cumulativeWork == 31) (by decide +kernel)
  exact ⟨t, ht, eq_of_beq hwork⟩

theorem works_empty : ((chainReconstructHistory storingContext [genesis, empty]).2.any
    fun s => 31 < s.cumulativeWork) = true := by
  decide +kernel

end StnChain.Sample
