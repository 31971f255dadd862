import StnChain.Chain.StateRun

/-!
# Storage

The stored image of a history and its recovery (`stn_storage.c`).  An image is a
header, length-prefixed blocks and a digest.  `stn_storage_recovery_read` keeps
what it can of a damaged image; `recovery_longest_iff` says when that is the
longest prefix of the intact blocks that reconstruction accepts.
-/

namespace StnChain

section

variable [Primitives]

/-! ## Images -/

/-- `stn_storage_status` other than `STN_STORAGE_OK`. -/
inductive StorageStatus
  | argument | format | validation | io | notFound | exists | stale | notPreferred | unresolved
  | busy | capacity
  deriving DecidableEq, Repr

/-- `stn_storage_view`. -/
structure StorageView where
  blocks : List Bytes
  state : ChainState

/-- `STN_STORAGE_OVERHEAD`: the header and the digest. -/
def storageOverhead : ℕ := 44

/-- The least octets of a stored block: its length and its header. -/
def storedBlockMin : ℕ := 4 + blockHeaderSize

/-- The magic, version and flags of a stored image. -/
def storageFormat (image : Bytes) : Bool :=
  image.take 4 = [0x53, 0x54, 0x4e, 0x53] && wireRead image 4 2 = 1 && wireRead image 6 2 = 0

/-- The block at the front of `rest` and what is left after it, if it is intact. -/
def storedBlock (rest : Bytes) : Option (Bytes × Bytes) :=
  if rest.length < 4 then none
  else
    let length := wireRead rest 0 4
    if length < blockHeaderSize ∨ length > blockMaxSize ∨ length > rest.length - 4 then none
    else some ((rest.drop 4).take length, rest.drop (4 + length))

/-- The block loop of `stn_storage_decode`, over the octets between header and
digest; `none` is a format failure. -/
def storedBlocks : ℕ → Bytes → Option (List Bytes)
  | 0, rest => if rest = [] then some [] else none
  | count + 1, rest =>
      match storedBlock rest with
      | none => none
      | some (bytes, rest) => (storedBlocks count rest).map (bytes :: ·)

/-- `digest`. -/
def storageDigest (c : ChainContext) (bytes : Bytes) : Except StorageStatus (Octets 32) :=
  match c.hashProvider.hash with
  | none => .error .unresolved
  | some hash =>
      match hash (cString "STN-CHAIN:STORAGE:1") bytes with
      | .ok digest => .ok digest
      | .error .unresolved => .error .unresolved
      | .error _ => .error .io

/-- `validate`. -/
def storageValidate (c : ChainContext) (blocks : List Bytes) : Except StorageStatus ChainState :=
  if blocks = [] ∨ c.powPolicy.isNone then .error .argument
  else
    match chainReconstructHistory c blocks with
    | (_, some s) => .ok s
    | (r, none) => if r.acceptance = .unresolved then .error .unresolved else .error .validation

/-- `stn_storage_decode`. -/
def storageDecode (c : ChainContext) (image : Bytes) : Except StorageStatus StorageView :=
  if image.length < storageOverhead ∨ !storageFormat image then .error .format
  else
    let count := wireRead image 8 4
    if count = 0 ∨ count > (image.length - storageOverhead) / storedBlockMin then .error .format
    else
      let signed := image.take (image.length - 32)
      match storedBlocks count (signed.drop 12) with
      | none => .error .format
      | some blocks =>
          match storageDigest c signed with
          | .error status => .error status
          | .ok digest =>
              if digest ≠ octetsAt image (image.length - 32) 32 then .error .format
              else
                match storageValidate c blocks with
                | .error status => .error status
                | .ok state => .ok ⟨blocks, state⟩

/-! ## Recovery -/

/-- `stn_storage_provider`, as recovery uses it; `read` is given the capacity. -/
structure StorageProvider where
  acquire : Except StorageStatus Unit
  read : ℕ → Except StorageStatus Bytes

/-- `io_status`, of a status that is not a success. -/
def ioStatus : StorageStatus → StorageStatus
  | .notFound => .notFound
  | .busy => .busy
  | .capacity => .capacity
  | _ => .io

/-- The block loop of `recovery_locked`. -/
def recoveryScan (c : ChainContext) : ℕ → Bytes → StorageView → Except StorageStatus StorageView
  | 0, _, v => .ok v
  | count + 1, rest, v =>
      match storedBlock rest with
      | none => .ok v
      | some (bytes, rest) =>
          match chainValidateCandidate c v.state bytes with
          | (r, none) =>
              if r.acceptance = .unresolved then .error .unresolved
              else if r.acceptance = .error then .error .io
              else .ok v
          | (_, some state) => recoveryScan c count rest ⟨v.blocks ++ [bytes], state⟩

/-- The block count recovery starts from; a format it does not know is not scanned. -/
def recoveryCount (image : Bytes) : ℕ :=
  if image.length ≥ 12 ∧ storageFormat image then
    min (wireRead image 8 4) ((image.length - 12) / storedBlockMin)
  else 0

/-- `recovery_locked`; the flag says that the view was recovered. -/
def recoveryLocked (c : ChainContext) (p : StorageProvider) (capacity : ℕ) :
    Except StorageStatus (StorageView × Bool) :=
  if c.powPolicy.isNone then .error .validation
  else
    match chainInitialize c with
    | .error _ => .error .validation
    | .ok initial =>
        match p.read capacity with
        | .error status =>
            if ioStatus status = .notFound then .ok (⟨[], initial⟩, true)
            else .error (ioStatus status)
        | .ok image =>
            if image.length > capacity then .error .io
            else
              match storageDecode c image with
              | .ok v => .ok (v, false)
              | .error status =>
                  if status ≠ .format ∧ status ≠ .validation then .error status
                  else
                    match recoveryScan c (recoveryCount image) (image.drop 12) ⟨[], initial⟩ with
                    | .error status => .error status
                    | .ok v => .ok (v, true)

/-- `stn_storage_recovery_read`. -/
def storageRecoveryRead (c : ChainContext) (p : StorageProvider) (capacity : ℕ) :
    Except StorageStatus (StorageView × Bool) :=
  match p.acquire with
  | .error status => .error (ioStatus status)
  | .ok () => recoveryLocked c p capacity

/-! ## Intact blocks -/

/-- The intact blocks at the front of `rest`, at most `count`. -/
def intactBlocks : ℕ → Bytes → List Bytes
  | 0, _ => []
  | count + 1, rest =>
      match storedBlock rest with
      | none => []
      | some (bytes, rest) => bytes :: intactBlocks count rest

/-- The intact stored blocks of an image. -/
def storedHistory (image : Bytes) : List Bytes :=
  intactBlocks (wireRead image 8 4) (image.drop 12)

omit [Primitives] in
theorem storedBlock_eq_some {rest bytes rest' : Bytes}
    (h : storedBlock rest = some (bytes, rest')) :
    rest'.length + storedBlockMin ≤ rest.length := by
  simp only [storedBlock] at h
  split at h
  · simp at h
  split at h
  · simp at h
  next hsize hlimits =>
  obtain ⟨-, rfl⟩ := Prod.mk.inj (Option.some.inj h)
  simp only [List.length_drop, storedBlockMin, blockHeaderSize] at *
  omega

omit [Primitives] in
/-- A bound the octets allow for does not cut the intact blocks. -/
theorem intactBlocks_min {count bound : ℕ} {rest : Bytes}
    (h : rest.length / storedBlockMin ≤ bound) :
    intactBlocks (min count bound) rest = intactBlocks count rest := by
  induction count generalizing bound rest with
  | zero => simp
  | succ count ih =>
      cases hblock : storedBlock rest with
      | none =>
          have hnone (n : ℕ) : intactBlocks n rest = [] := by
            cases n <;> simp [intactBlocks, hblock]
          rw [hnone, hnone]
      | some p =>
          obtain ⟨bytes, rest'⟩ := p
          have hlength := storedBlock_eq_some hblock
          simp only [storedBlockMin, blockHeaderSize] at hlength h
          obtain ⟨bound, rfl⟩ : ∃ n, bound = n + 1 := ⟨bound - 1, by omega⟩
          rw [Nat.add_min_add_right]
          simp only [intactBlocks, hblock]
          rw [ih (by simp only [storedBlockMin, blockHeaderSize]; omega)]

omit [Primitives] in
theorem storedBlock_append {rest bytes rest' : Bytes}
    (h : storedBlock rest = some (bytes, rest')) (tail : Bytes) :
    storedBlock (rest ++ tail) = some (bytes, rest' ++ tail) := by
  simp only [storedBlock] at h
  split at h
  · simp at h
  next hsize =>
  split at h
  · simp at h
  next hlimits =>
  obtain ⟨rfl, rfl⟩ := Prod.mk.inj (Option.some.inj h)
  have hread : wireRead (rest ++ tail) 0 4 = wireRead rest 0 4 := by
    simp [wireRead, BigEndian.field, List.take_append_of_le_length (Nat.le_of_not_lt hsize)]
  have hlength : 4 + wireRead rest 0 4 ≤ rest.length := by omega
  have hdrop : (rest ++ tail).drop 4 = rest.drop 4 ++ tail :=
    List.drop_append_of_le_length (by omega)
  have htake : ((rest.drop 4) ++ tail).take (wireRead rest 0 4) =
      (rest.drop 4).take (wireRead rest 0 4) :=
    List.take_append_of_le_length (by simp; omega)
  have hdrop' : (rest ++ tail).drop (4 + wireRead rest 0 4) =
      rest.drop (4 + wireRead rest 0 4) ++ tail := List.drop_append_of_le_length hlength
  have hsize' : ¬(rest ++ tail).length < 4 := by simp; omega
  have hlimits' : ¬(wireRead rest 0 4 < blockHeaderSize ∨ wireRead rest 0 4 > blockMaxSize ∨
      wireRead rest 0 4 > (rest ++ tail).length - 4) := by
    simp only [List.length_append] at *
    omega
  simp only [storedBlock, if_neg hsize', hread, if_neg hlimits', hdrop, htake, hdrop']

omit [Primitives] in
/-- The blocks of an image without damage are its intact blocks. -/
theorem intactBlocks_of_storedBlocks {count : ℕ} {rest : Bytes} {blocks : List Bytes}
    (h : storedBlocks count rest = some blocks) (tail : Bytes) :
    intactBlocks count (rest ++ tail) = blocks := by
  induction count generalizing rest blocks with
  | zero =>
      simp only [storedBlocks] at h
      split at h
      · simpa [intactBlocks] using h
      · simp at h
  | succ count ih =>
      simp only [storedBlocks] at h
      split at h
      · simp at h
      next bytes rest' hblock =>
      obtain ⟨blocks', hblocks, rfl⟩ := Option.map_eq_some_iff.mp h
      simp only [intactBlocks, storedBlock_append hblock, ih hblocks]

theorem storageDecode_eq_ok {c : ChainContext} {image : Bytes} {v : StorageView}
    (h : storageDecode c image = .ok v) :
    v.blocks = storedHistory image ∧ Accepts c v.blocks v.state := by
  simp only [storageDecode] at h
  split at h
  · simp at h
  next hformat =>
  split at h
  · simp at h
  split at h
  · simp at h
  next blocks hblocks =>
  split at h
  · simp at h
  split at h
  · simp at h
  split at h
  · simp at h
  next state hvalid =>
  obtain rfl := Except.ok.inj h
  constructor
  · have hsplit : image.drop 12 = (image.take (image.length - 32)).drop 12 ++
        image.drop (image.length - 32) := by
      have hsize : ¬image.length < storageOverhead := (not_or.mp hformat).1
      simp only [storageOverhead] at hsize
      rw [← List.drop_append_of_le_length (by simp; omega), List.take_append_drop]
    rw [storedHistory, hsplit]
    exact (intactBlocks_of_storedBlocks hblocks _).symm
  · simp only [storageValidate] at hvalid
    split at hvalid
    · simp at hvalid
    next hguard =>
    split at hvalid
    · next r s hreconstruct =>
        obtain rfl := Except.ok.inj hvalid
        exact accepts_of_state hreconstruct
    · split at hvalid <;> simp at hvalid

/-! ## The longest accepted prefix -/

/-- A prefix of some blocks that reconstruction accepts and that is as long as every
other one. -/
structure LongestAccepted (c : ChainContext) (blocks kept : List Bytes) : Prop where
  isPrefix : kept <+: blocks
  accepted : kept = [] ∨ ∃ s, Accepts c kept s
  longest : ∀ other, other <+: blocks → (∃ s, Accepts c other s) → other.length ≤ kept.length

theorem LongestAccepted.length_le {c : ChainContext} {blocks kept kept' : List Bytes}
    (h : LongestAccepted c blocks kept) (h' : LongestAccepted c blocks kept') :
    kept.length ≤ kept'.length := by
  rcases h.accepted with rfl | haccepts
  · exact Nat.zero_le _
  · exact h'.longest kept h.isPrefix haccepts

theorem LongestAccepted.unique {c : ChainContext} {blocks kept kept' : List Bytes}
    (h : LongestAccepted c blocks kept) (h' : LongestAccepted c blocks kept') : kept = kept' :=
  (List.prefix_of_prefix_length_le h.isPrefix h'.isPrefix (h.length_le h')).eq_of_length
    (Nat.le_antisymm (h.length_le h') (h'.length_le h))

/-- From a reached state some blocks continue the history furthest. -/
theorem Reaches.exists_longest {c : ChainContext} {past : List Bytes} {s : ChainState}
    (h : Reaches c past s) (rest : List Bytes) :
    ∃ kept t, kept <+: rest ∧ Reaches c (past ++ kept) t ∧
      ∀ other, other <+: rest → (∃ u, Reaches c (past ++ other) u) →
        other.length ≤ kept.length := by
  induction rest generalizing past s with
  | nil =>
      refine ⟨[], s, List.prefix_rfl, by simpa using h, fun other hother _ => ?_⟩
      simp [List.prefix_nil.mp hother]
  | cons bytes rest ih =>
      cases hstep : reconstructStep c past s bytes with
      | error r =>
          refine ⟨[], s, List.nil_prefix, by simpa using h, fun other hother hreach => ?_⟩
          rcases List.prefix_cons_iff.mp hother with rfl | ⟨other, rfl, -⟩
          · exact le_rfl
          · obtain ⟨u, hu⟩ := hreach
            obtain ⟨s₁, s', hs₁, hstep', -⟩ := hu.step_at
            obtain rfl := h.unique hs₁
            simp [hstep] at hstep'
      | ok s' =>
          have hs' : Reaches c (past ++ [bytes]) s' := reaches_snoc_iff.mpr ⟨s, h, hstep⟩
          obtain ⟨kept, t, hkept, ht, hlongest⟩ := ih hs'
          refine ⟨bytes :: kept, t, List.prefix_cons_inj bytes |>.mpr hkept, by simpa using ht,
            fun other hother hreach => ?_⟩
          rcases List.prefix_cons_iff.mp hother with rfl | ⟨other, rfl, hprefix⟩
          · exact Nat.zero_le _
          · exact Nat.succ_le_succ (hlongest other hprefix (by simpa using hreach))

/-- What is reached furthest is the longest accepted prefix. -/
theorem exists_longestAccepted {c : ChainContext} {initial : ChainState}
    (h : chainInitialize c = .ok initial) (blocks : List Bytes) :
    ∃ kept s, Reaches c kept s ∧ LongestAccepted c blocks kept := by
  obtain ⟨kept, s, hprefix, hreach, hlongest⟩ :=
    Reaches.exists_longest (⟨initial, h, .nil⟩ : Reaches c [] initial) blocks
  have hreach : Reaches c kept s := by simpa using hreach
  refine ⟨kept, s, hreach, hprefix, ?_, fun other hother ⟨u, hu⟩ =>
    hlongest other hother ⟨u, by simpa using (accepts_iff.mp hu).2⟩⟩
  by_cases hnil : kept = []
  · exact .inl hnil
  · exact .inr ⟨s, accepts_iff.mpr ⟨hnil, hreach⟩⟩

/-- The block loop of recovery, over the intact blocks. -/
def scanBlocks (c : ChainContext) : List Bytes → StorageView → Except StorageStatus StorageView
  | [], v => .ok v
  | bytes :: rest, v =>
      match chainValidateCandidate c v.state bytes with
      | (r, none) =>
          if r.acceptance = .unresolved then .error .unresolved
          else if r.acceptance = .error then .error .io
          else .ok v
      | (_, some state) => scanBlocks c rest ⟨v.blocks ++ [bytes], state⟩

theorem recoveryScan_eq (c : ChainContext) (count : ℕ) (rest : Bytes) (v : StorageView) :
    recoveryScan c count rest v = scanBlocks c (intactBlocks count rest) v := by
  induction count generalizing rest v with
  | zero => rfl
  | succ count ih =>
      simp only [recoveryScan, intactBlocks]
      cases storedBlock rest with
      | none => rfl
      | some p =>
          simp only [scanBlocks]
          rcases chainValidateCandidate c v.state p.1 with ⟨r, _ | state⟩
          · rfl
          · exact ih _ _

/-- What recovery keeps extends what it had kept. -/
theorem scanBlocks_length {c : ChainContext} {blocks : List Bytes} {v w : StorageView}
    (h : scanBlocks c blocks v = .ok w) : v.blocks.length ≤ w.blocks.length := by
  induction blocks generalizing v with
  | nil =>
      obtain rfl := Except.ok.inj h
      exact le_rfl
  | cons bytes rest ih =>
      simp only [scanBlocks] at h
      split at h
      · split at h
        · simp at h
        split at h
        · simp at h
        · obtain rfl := Except.ok.inj h
          exact le_rfl
      · exact (Nat.le_trans (by simp) (ih h))

/-- Recovery along blocks a run with state alone accepts. -/
theorem scanBlocks_append {c : ChainContext} {front : List Bytes} {seen : List Bytes}
    {v : StorageView} {t : ChainState}
    (h : PastRun.run (stateStep c) seen v.state front = .ok t) (rest : List Bytes) :
    scanBlocks c (front ++ rest) v = scanBlocks c rest ⟨v.blocks ++ front, t⟩ := by
  induction front generalizing seen v with
  | nil =>
      obtain rfl := Except.ok.inj h
      simp
  | cons bytes front ih =>
      simp only [PastRun.run, stateStep] at h
      simp only [List.cons_append, scanBlocks]
      rcases hvalid : chainValidateCandidate c v.state bytes with ⟨r, _ | state⟩
      · simp [hvalid] at h
      · simp only [hvalid] at h
        have hrest := ih (v := ⟨v.blocks ++ [bytes], state⟩) h
        simpa using hrest

/-- Recovery gives up where a run with state alone is left unresolved. -/
theorem scanBlocks_unresolved {c : ChainContext} {front : List Bytes} {seen : List Bytes}
    {v : StorageView} {r : ChainReport}
    (h : PastRun.run (stateStep c) seen v.state front = .error r)
    (hr : r.acceptance = .unresolved) (rest : List Bytes) :
    scanBlocks c (front ++ rest) v = .error .unresolved := by
  induction front generalizing seen v with
  | nil => simp [PastRun.run] at h
  | cons bytes front ih =>
      simp only [PastRun.run, stateStep] at h
      simp only [List.cons_append, scanBlocks]
      rcases hvalid : chainValidateCandidate c v.state bytes with ⟨r', _ | state⟩
      · simp only [hvalid] at h
        obtain rfl := Except.error.inj h
        simp [hr]
      · simp only [hvalid] at h
        exact ih (v := ⟨v.blocks ++ [bytes], state⟩) h

/-! ## When recovery keeps the longest prefix -/

/-- Recovery of a damaged image that keeps every accepted block: each block of the
longest accepted prefix is checkable from the state before it, and state alone is
enough to reject the intact block after them, if there is one. -/
def ScanSettles (c : ChainContext) (blocks : List Bytes) : Prop :=
  ∀ kept s, LongestAccepted c blocks kept → Reaches c kept s →
    checkableFrom c.hashProvider 0 kept = true ∧
      ∀ next, blocks[kept.length]? = some next →
        (chainValidateCandidate c s next).1.acceptance = .rejected

/-- Validation with state alone gives one report over any storage. -/
theorem chainValidateCandidate_content (c : ChainContext) {s t : ChainState}
    (h : t.content = s.content) (bytes : Bytes) :
    (chainValidateCandidate c t bytes).1 = (chainValidateCandidate c s bytes).1 := by
  have hcontent := validateCandidate_content c h none bytes false false
  simp only [chainValidateCandidate]
  rcases hs : validateCandidate c s none bytes false with r | ⟨r, s'⟩ <;>
  rcases ht : validateCandidate c t none bytes false with r' | ⟨r', t'⟩
  · simpa [chainResult, resultContent, hs, ht, Except.map] using hcontent
  · simp [resultContent, hs, ht, Except.map] at hcontent
  · simp [resultContent, hs, ht, Except.map] at hcontent
  · simp only [resultContent, hs, ht, Except.map, Except.ok.injEq] at hcontent
    simpa [chainResult] using congrArg Prod.fst hcontent

/-- The scan of some blocks from the start keeps their longest accepted prefix
exactly when it settles every one of its blocks and the one after them. -/
theorem scanBlocks_longest_iff {c : ChainContext} {initial : ChainState}
    (hinit : chainInitialize c = .ok initial) (blocks : List Bytes) :
    (∃ v, scanBlocks c blocks ⟨[], initial⟩ = .ok v ∧ LongestAccepted c blocks v.blocks) ↔
      ScanSettles c blocks := by
  obtain ⟨kept, s, hreach, hlongest⟩ := exists_longestAccepted hinit blocks
  obtain ⟨rest, rfl⟩ := hlongest.isPrefix
  have hstart : Reaches c [] initial := ⟨initial, hinit, .nil⟩
  have htip : initial.tipId = 0 := by
    obtain ⟨-, activation, -, rfl⟩ := chainInitialize_eq_ok hinit
    rfl
  have hsettles : ScanSettles c (kept ++ rest) ↔ checkableFrom c.hashProvider 0 kept = true ∧
      ∀ next, rest.head? = some next →
        (chainValidateCandidate c s next).1.acceptance = .rejected := by
    have hnext : (kept ++ rest)[kept.length]? = rest.head? := by
      rw [List.getElem?_append_right le_rfl, Nat.sub_self, List.head?_eq_getElem?]
    constructor
    · intro h
      rw [← hnext]
      exact h kept s hlongest hreach
    · intro h kept' s' hlongest' hreach'
      obtain rfl := hlongest.unique hlongest'
      obtain rfl := hreach.unique hreach'
      rwa [hnext]
  obtain ⟨hok, hopen⟩ := hstart.stateRun rfl (by simpa using hreach) []
  rw [htip] at hok hopen
  rw [hsettles]
  cases hcheckable : checkableFrom c.hashProvider 0 kept with
  | false =>
      obtain ⟨r, hrun, hr, -⟩ := hopen hcheckable
      simp [scanBlocks_unresolved (v := ⟨[], initial⟩) hrun hr]
  | true =>
      obtain ⟨t, hrun, hcontent⟩ := hok hcheckable
      rw [scanBlocks_append (v := ⟨[], initial⟩) hrun, List.nil_append]
      cases rest with
      | nil => exact ⟨fun _ => ⟨rfl, by simp⟩, fun _ => ⟨_, rfl, hlongest⟩⟩
      | cons next rest =>
          have hreport := chainValidateCandidate_content c hcontent next
          have hiff := chainValidateCandidate_acceptance_iff c t next
          simp only [List.head?_cons, Option.some.injEq, true_and, forall_eq', scanBlocks,
            ← hreport]
          rcases hvalid : chainValidateCandidate c t next with ⟨r, _ | t'⟩
          · simp only [hvalid, reduceCtorEq, exists_false, iff_false] at hiff
            dsimp only
            cases hr : r.acceptance with
            | rejected => simpa using hlongest
            | underContext => exact absurd hr hiff
            | unresolved => simp
            | error => simp
          · simp only [hvalid, Option.some.injEq, exists_eq', iff_true] at hiff
            simp only [hiff, reduceCtorEq, iff_false]
            rintro ⟨v, hscan, hv⟩
            have hlength := scanBlocks_length hscan
            rw [hv.unique hlongest] at hlength
            simp at hlength

/-- The condition under which recovery keeps the longest accepted prefix: a valid
context with a proof-of-work policy, and an image that decodes whole, or one whose
damage is of format or validation and whose intact blocks the scan settles. -/
def RecoveryCondition (c : ChainContext) (image : Bytes) : Prop :=
  c.powPolicy.isSome ∧ (∃ initial, chainInitialize c = .ok initial) ∧
    ((∃ v, storageDecode c image = .ok v) ∨
      ((storageDecode c image = .error .format ∨ storageDecode c image = .error .validation) ∧
        ScanSettles c (storedHistory image)))

/-- Recovery of a readable image with the supported header yields the longest prefix
of its intact blocks that reconstruction accepts exactly under its condition. -/
theorem recovery_longest_iff {c : ChainContext} {p : StorageProvider} {capacity : ℕ}
    {image : Bytes} (hacquire : p.acquire = .ok ()) (hread : p.read capacity = .ok image)
    (hcapacity : image.length ≤ capacity) (hheader : 12 ≤ image.length)
    (hformat : storageFormat image = true) :
    (∃ v recovered, storageRecoveryRead c p capacity = .ok (v, recovered) ∧
      LongestAccepted c (storedHistory image) v.blocks) ↔ RecoveryCondition c image := by
  have hcount : recoveryScan c (recoveryCount image) (image.drop 12) =
      fun v => scanBlocks c (storedHistory image) v := by
    funext v
    rw [recoveryScan_eq, storedHistory, recoveryCount, if_pos ⟨hheader, hformat⟩,
      intactBlocks_min (by simp)]
  simp only [storageRecoveryRead, hacquire, recoveryLocked, hread, hcount, RecoveryCondition,
    if_neg (Nat.not_lt.mpr hcapacity)]
  cases hpolicy : c.powPolicy with
  | none => simp
  | some policy =>
  cases hinit : chainInitialize c with
  | error status => simp
  | ok initial =>
  have hscan := scanBlocks_longest_iff hinit (storedHistory image)
  cases hdecode : storageDecode c image with
  | ok v =>
      obtain ⟨hblocks, haccepts⟩ := storageDecode_eq_ok hdecode
      have hlongest : LongestAccepted c (storedHistory image) v.blocks := by
        rw [hblocks] at haccepts ⊢
        exact ⟨List.prefix_rfl, .inr ⟨_, haccepts⟩, fun other hother _ => hother.length_le⟩
      simp [hlongest]
  | error status =>
      by_cases hdamage : status = .format ∨ status = .validation
      · have hkeep : ¬(status ≠ .format ∧ status ≠ .validation) := by tauto
        simp only [Option.isNone_some, Bool.false_eq_true, ↓reduceIte, if_neg hkeep,
          Option.isSome_some, Except.ok.injEq, exists_eq', true_and, reduceCtorEq, exists_false,
          false_or, Except.error.injEq, hdamage, ← hscan]
        constructor
        · rintro ⟨v, recovered, hresult, hlongest⟩
          split at hresult
          · simp at hresult
          · next w hw =>
              obtain ⟨rfl, -⟩ := Prod.mk.inj (Except.ok.inj hresult)
              exact ⟨w, hw, hlongest⟩
        · rintro ⟨v, hv, hlongest⟩
          exact ⟨v, true, by simp [hv], hlongest⟩
      · have hgive : status ≠ .format ∧ status ≠ .validation := by tauto
        simp [hgive]

end

section Sample

attribute [local instance] Sample.primitives

open Sample

/-- The stored image of some blocks, cut off before its digest. -/
def Sample.cutImage (blocks : List Bytes) : Bytes :=
  [0x53, 0x54, 0x4e, 0x53] ++ wireWrite 2 1 ++ wireWrite 2 0 ++ wireWrite 4 blocks.length ++
    blocks.flatMap fun bytes => wireWrite 4 bytes.length ++ bytes

/-- A storage that holds an image. -/
def Sample.storage (image : Bytes) : StorageProvider where
  acquire := .ok ()
  read _ := .ok image

/-- Recovery gives up on a share issuance, though its block is accepted. -/
theorem sample_recovery_unresolved :
    ¬ ∀ (image : Bytes) (capacity : ℕ), image.length ≤ capacity → 12 ≤ image.length →
      storageFormat image = true → ∃ v recovered,
        storageRecoveryRead context (storage image) capacity = .ok (v, recovered) ∧
          LongestAccepted context (storedHistory image) v.blocks := by
  intro h
  obtain ⟨v, recovered, hread, -⟩ :=
    h (cutImage [genesis, empty, shares, rewards]) 4096 (by decide +kernel) (by decide +kernel)
      (by decide +kernel)
  have hgives : (storageRecoveryRead context
      (storage (cutImage [genesis, empty, shares, rewards])) 4096).isOk = false := by
    decide +kernel
  rw [hread] at hgives
  exact Bool.noConfusion hgives

theorem sample_recovery_longest :
    ∃ v recovered,
      storageRecoveryRead context (storage (cutImage [genesis, empty])) 4096 = .ok (v, recovered) ∧
        LongestAccepted context (storedHistory (cutImage [genesis, empty])) v.blocks := by
  obtain ⟨-, t, ht⟩ := accepts_front
  have hstored : storedHistory (cutImage [genesis, empty]) = [genesis, empty] := by
    decide +kernel
  have hlongest : LongestAccepted context [genesis, empty] [genesis, empty] :=
    ⟨List.prefix_rfl, .inr ⟨t, ht⟩, fun other hother _ => hother.length_le⟩
  have hinit : ∃ initial, chainInitialize context = .ok initial := by
    obtain ⟨-, initial, hinit, -⟩ := accepts_iff.mp ht
    exact ⟨initial, hinit⟩
  have hdamaged : storageDecode context (cutImage [genesis, empty]) = .error .format := by
    have hformat : (match storageDecode context (cutImage [genesis, empty]) with
        | .error status => status = .format
        | .ok _ => false) = true := by
      decide +kernel
    split at hformat
    · next status hdecode => rw [hdecode, of_decide_eq_true hformat]
    · cases hformat
  have hchecked : checkableFrom context.hashProvider 0 [genesis, empty] = true := by
    decide +kernel
  have hsettles : ScanSettles context (storedHistory (cutImage [genesis, empty])) := by
    rw [hstored]
    intro kept s hkept _
    obtain rfl := hkept.unique hlongest
    exact ⟨hchecked, fun next hnext => by simp at hnext⟩
  exact (recovery_longest_iff rfl rfl (by decide +kernel) (by decide +kernel)
    (by decide +kernel)).mpr ⟨rfl, hinit, .inr ⟨.inl hdamaged, hsettles⟩⟩

end Sample

end StnChain
