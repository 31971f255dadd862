import StnChain.Platform.LinuxStorage
import StnChain.Support.Buffer

/-!
# The lifetime of a node

What a node finds of its history when it is started again (`platforms/linux/stn_app_linux.c`).
A node takes its genesis block from the stored history, loads that history and then changes it
through the storage operations alone.  The process may be stopped or killed at any point and the
power may fail; `restart_resumes` says what the next start makes of the files.
-/

namespace StnChain

open Publication

/-! ## Provider calls of a storage operation -/

section Views

variable [Primitives] {σ α : Type} {d : StorageDevice σ} {view : σ → α}

/-- Nothing but a successful replacement changes the view. -/
structure Quiet (d : StorageDevice σ) (view : σ → α) : Prop where
  acquire : ∀ x, view (d.acquire x).2 = view x
  release : ∀ x, view (d.release x) = view x
  read : ∀ capacity x, view (d.read capacity x).2 = view x
  failed : ∀ image x status, (d.replace image x).1 = .error status →
    view (d.replace image x).2 = view x

/-- An operation that fails leaves the view, and one that succeeds makes one replacement. -/
structure PublishesOnce (d : StorageDevice σ) (view : σ → α) (x : σ) (o : StorageOutcome σ) :
    Prop where
  failed : ∀ status, o.status = .error status → view o.device = view x
  done : o.status = .ok () → ∃ image y, view y = view x ∧ (d.replace image y).1 = .ok () ∧
    view o.device = view (d.replace image y).2

variable {c : ChainContext} {active next : ChainState} {x x' : σ}

omit [Primitives] in
theorem PublishesOnce.error (hx : view x' = view x) (status : StorageStatus) :
    PublishesOnce d view x ⟨.error status, active, x'⟩ where
  failed _ _ := hx
  done h := by simp at h

omit [Primitives] in
theorem storageLocked_publishesOnce (h : Quiet d view) {body : σ → StorageOutcome σ}
    (hbody : ∀ x', view x' = view x → PublishesOnce d view x (body x')) :
    PublishesOnce d view x (storageLocked d active x body) := by
  have hacquire := h.acquire x
  simp only [storageLocked]
  split
  · next status x' hx =>
      rw [hx] at hacquire
      exact .error hacquire _
  · next x' hx =>
      rw [hx] at hacquire
      obtain ⟨hfailed, hdone⟩ := hbody x' hacquire
      constructor
      · intro status hstatus
        rw [h.release]
        exact hfailed status hstatus
      · intro hstatus
        rw [h.release]
        exact hdone hstatus

omit [Primitives] in
theorem storageCommit_publishesOnce (h : Quiet d view) (image : Except StorageStatus Bytes)
    (hx : view x' = view x) :
    PublishesOnce d view x (storageCommit d image next active x') := by
  cases image with
  | error status => exact .error hx status
  | ok image =>
      have hfailed := h.failed image x'
      simp only [storageCommit]
      split
      · next status x'' hreplace =>
          rw [hreplace] at hfailed
          exact .error ((hfailed status rfl).trans hx) _
      · next x'' hreplace =>
          refine ⟨by simp, fun _ => ⟨image, x', hx, ?_, ?_⟩⟩
          · rw [hreplace]
          · rw [hreplace]

theorem view_readLocked (h : Quiet d view) (capacity : ℕ) (x : σ) :
    view (readLocked c d capacity x).2 = view x := by
  have hread := h.read capacity x
  simp only [readLocked]
  split
  · next hx =>
      rw [hx] at hread
      exact hread
  next hx =>
  rw [hx] at hread
  split
  · exact hread
  · exact hread

theorem view_storageLoad (h : Quiet d view) (capacity : ℕ) (x : σ) :
    view (storageLoad c d capacity x).2 = view x := by
  have hacquire := h.acquire x
  simp only [storageLoad]
  split
  · next hx =>
      rw [hx] at hacquire
      exact hacquire
  next x' hx =>
  rw [hx] at hacquire
  rw [h.release, view_readLocked h, hacquire]

theorem storageCreate_publishesOnce (h : Quiet d view) (blocks : List Bytes) (capacity : ℕ) :
    PublishesOnce d view x (storageCreate c d blocks capacity active x) := by
  simp only [storageCreate]
  split
  · exact .error rfl _
  apply storageLocked_publishesOnce h
  intro x' hx'
  have hread := h.read 0 x'
  split
  · next hx'' =>
      rw [hx''] at hread
      exact .error (hread.trans hx') _
  next hx'' =>
  rw [hx''] at hread
  split
  · exact storageCommit_publishesOnce h _ (hread.trans hx')
  split
  · exact .error (hread.trans hx') _
  · exact .error (hread.trans hx') _

theorem storageApply_publishesOnce (h : Quiet d view) (blocks : List Bytes) (plan : ReorgPlan)
    (w : StorageWorkspace) :
    PublishesOnce d view x (storageApply c d blocks plan w active x) := by
  apply storageLocked_publishesOnce h
  intro x' hx'
  have hread := view_readLocked (c := c) h w.currentCapacity x'
  split
  · next hx'' =>
      rw [hx''] at hread
      exact .error (hread.trans hx') _
  next hx'' =>
  rw [hx''] at hread
  have hx := hread.trans hx'
  split
  · exact .error hx _
  split
  split
  · exact .error hx _
  split
  · exact .error hx _
  split
  · exact .error hx _
  · exact storageCommit_publishesOnce h _ hx

theorem storageExtend_publishesOnce (h : Quiet d view) (bytes : Bytes) (w : StorageWorkspace) :
    PublishesOnce d view x (storageExtend c d bytes w active x) := by
  apply storageLocked_publishesOnce h
  intro x' hx'
  have hread := view_readLocked (c := c) h w.currentCapacity x'
  split
  · next hx'' =>
      rw [hx''] at hread
      exact .error (hread.trans hx') _
  next hx'' =>
  rw [hx''] at hread
  have hx := hread.trans hx'
  split
  · exact .error hx _
  split
  · exact .error hx _
  split
  · exact .error hx _
  · exact storageCommit_publishesOnce h _ hx

theorem storageAdoptOn_publishesOnce (h : Quiet d view) (blocks : List Bytes)
    (w : StorageWorkspace) :
    PublishesOnce d view x (storageAdoptOn c d blocks w active x) := by
  simp only [storageAdoptOn]
  split
  · exact .error rfl _
  apply storageLocked_publishesOnce h
  intro x' hx'
  have hx := (h.read w.currentCapacity x').trans hx'
  split
  · exact .error hx _
  split
  · exact .error hx _
  · exact storageCommit_publishesOnce h _ hx

/-- A call makes at most one replacement. -/
theorem StorageCall.run_publishesOnce (h : Quiet d view) (call : StorageCall) :
    PublishesOnce d view x (call.run c d active x) := by
  cases call with
  | create blocks capacity => exact storageCreate_publishesOnce h blocks capacity
  | apply blocks plan w => exact storageApply_publishesOnce h blocks plan w
  | extend bytes w => exact storageExtend_publishesOnce h bytes w
  | adopt blocks w => exact storageAdoptOn_publishesOnce h blocks w

/-- Storage is created only where there is none. -/
theorem storageCreate_fresh {blocks : List Bytes} {capacity : ℕ}
    (h : (storageCreate c d blocks capacity active x).status = .ok ()) : d.persisted x = none := by
  simp only [storageCreate] at h
  split at h
  · cases h
  have hacquire := d.acquire_persisted x
  simp only [storageLocked] at h
  split at h
  · cases h
  next x' hx =>
  rw [hx] at hacquire
  have hmissing := d.read_notFound 0 x'
  split at h
  · cases h
  next status x'' hx' =>
  rw [hx'] at hmissing
  split at h
  · next hstatus =>
      have hnotFound : status = .notFound := by
        cases status <;> simp_all [ioStatus]
      rw [← hacquire]
      exact hmissing (congrArg _ hnotFound)
  split at h
  · cases h
  · cases h

end Views

section

variable [Primitives]

/-! ## Startup -/

/-- What `history_genesis` finds at the data path. -/
inductive HistoryGenesis
  | absent | unreadable
  | found (bytes : Bytes)
  deriving DecidableEq, Repr

/-- `history_genesis`; `readable` says that no call on an existing file fails. -/
def historyGenesis (readable : Bool) (file : Option Bytes) : HistoryGenesis :=
  if !readable then .unreadable
  else
    match file with
    | none => .absent
    | some bytes =>
        if bytes.length < 16 ∨ !storageFormat bytes ∨ wireRead bytes 8 4 = 0 then .unreadable
        else
          let size := wireRead bytes 12 4
          if size < blockHeaderSize + blockMinBody ∨ size > blockMaxSize ∨
              bytes.length < 16 + size then .unreadable
          else .found ((bytes.drop 16).take size)

/-- `development_genesis`. -/
def developmentGenesis : Bytes :=
  Buffer.writeAll (List.replicate 364 0)
    [(0, [0x53, 0x54, 0x4e, 0x42]), (5, [3]), (8, [1]), (163, [1]), (167, [196]), (171, [192]),
      (172, [0x53, 0x54, 0x4e, 0x54]), (177, [1]), (179, [1]), (183, [180]),
      (184, [0x53, 0x54, 0x4e, 0x52]), (189, [1]), (191, [1]), (192, [1]), (256, [3]),
      (88, [0xec, 0xf9, 0x1b, 0xfa, 0x6a, 0x4e, 0x06, 0xd8, 0x6a, 0x24, 0xd6, 0x36, 0xee, 0xd2,
        0x5f, 0x01, 0xcf, 0x30, 0x29, 0x49, 0xe8, 0x53, 0x51, 0xd4, 0x37, 0xe0, 0x4c, 0x4e, 0x49,
        0x21, 0x9a, 0x76]),
      (120, List.replicate 32 255), (120, [0]), (121, [0]), (122, [0]), (123, [127]), (152, [0]),
      (153, [0]), (154, [0]), (155, [0]), (156, [3]), (157, [17]), (158, [13]), (159, [32])]

/-- Where the command line takes the genesis block from: the stored history, the development
block of `--dev`, or the file of `--genesis` as far as `read_file` reads it. -/
inductive Anchor
  | history | development
  | selected (file : Option Bytes)

/-- A start of the process: whether reading the stored genesis block meets no failure, whether
`stat` answers for the file, and after how many operations the process is killed, if it is. -/
structure Startup where
  anchor : Anchor
  readable : Bool
  statted : Bool
  kill : Option ℕ

/-- The genesis block of a start. -/
def Startup.genesis (u : Startup) (file : Option Bytes) : Option Bytes :=
  match u.anchor with
  | .history =>
      match historyGenesis u.readable file with
      | .unreadable => none
      | .absent => some developmentGenesis
      | .found bytes => some bytes
  | .development => some developmentGenesis
  | .selected file => file

/-- The context `stn_linux_app` makes of a genesis block. -/
def nodeContext (genesis : Bytes) : Option ChainContext :=
  match blockDecode genesis with
  | .error _ => none
  | .ok b =>
      if b.header.version ≠ powBlockVersion then none
      else
        some {
          networkId := b.header.networkId
          genesisBytes := genesis
          genesisAuthorityRoots := []
          genesisInitialIdentities := []
          hashProvider := ⟨some Primitives.sha256⟩
          powPolicy := some ⟨b.header.reservedTarget⟩ }

/-- `initial_storage_capacity`, raised to the room of the genesis block. -/
def startupCapacity (u : Startup) (file : Option Bytes) (genesis : Bytes) : ℕ :=
  let existing := if u.statted then (file.map List.length).getD 0 else 0
  max (max (storageOverhead + 4 + blockHeaderSize + blockMinBody) existing)
    (storageOverhead + 4 + genesis.length)

/-- The start of `stn_linux_app` up to its first state. -/
def nodeStartup (u : Startup) (x : LinuxStorage) :
    Option (ChainContext × ChainState) × LinuxStorage :=
  match u.genesis x.snapshot with
  | none => (none, x)
  | some genesis =>
      match nodeContext genesis with
      | none => (none, x)
      | some c =>
          let capacity := startupCapacity u x.snapshot genesis
          match storageLoad c linuxDevice capacity x with
          | (.ok view, x) => (some (c, view.state), x)
          | (.error .notFound, x) =>
              let o := storageCreate c linuxDevice [genesis] capacity (emptyState c 0) x
              match o.status with
              | .ok () => (some (c, o.active), o.device)
              | .error _ => (none, o.device)
          | (.error _, x) => (none, x)

/-! ## Nodes -/

/-- The storage of a node, and its context and active state while its process runs. -/
structure Node where
  storage : LinuxStorage
  running : Option (ChainContext × ChainState)

/-- What happens to a node.  A call or a start may be killed, and a process may be killed
between calls or with the power. -/
inductive NodeEvent
  | start (u : Startup)
  | call (call : StorageCall) (kill : Option ℕ)
  | load (capacity : ℕ)
  | killed
  | powerLost (l : Loss UInt8)

/-- The process has ended, and with it its locks. -/
def Node.ended (n : Node) : Node where
  storage := { n.storage with locked := false, kill := none }
  running := none

/-- What a call leaves of a node. -/
def Node.after (x : LinuxStorage) (kill : Option ℕ) (running : Option (ChainContext × ChainState)) :
    Node :=
  if kill.isSome then Node.ended ⟨x, running⟩ else ⟨x, running⟩

/-- One event.  The node lock refuses a second process. -/
def nodeStep (n : Node) : NodeEvent → Node
  | .start u =>
      match n.running with
      | some _ => n
      | none =>
          let started := nodeStartup u { n.storage with kill := u.kill }
          Node.after started.2 u.kill started.1
  | .call call kill =>
      match n.running with
      | none => n
      | some (c, active) =>
          let o := call.run c linuxDevice active { n.storage with kill }
          Node.after o.device kill (some (c, o.active))
  | .load capacity =>
      match n.running with
      | none => n
      | some (c, _) => { n with storage := (storageLoad c linuxDevice capacity n.storage).2 }
  | .killed => n.ended
  | .powerLost l =>
      { n.ended with storage := { n.ended.storage with disk := n.storage.disk.lose l } }

/-- The node after a run of events. -/
def nodeRun (n : Node) (events : List NodeEvent) : Node :=
  events.foldl nodeStep n

/-! ## Calls on the adapter -/

/-- What the files may show. -/
def LinuxStorage.shown (x : LinuxStorage) : Option (File UInt8) × List (Option (File UInt8)) :=
  (x.disk.target, x.disk.past)

omit [Primitives] in
theorem persisted_linuxDevice (x : LinuxStorage) :
    linuxDevice.persisted x = x.disk.target.map File.content := rfl

omit [Primitives] in
theorem linux_quiet : Quiet linuxDevice LinuxStorage.shown where
  acquire x := by
    simp only [linuxDevice, linuxAcquire]
    split
    · rfl
    split
    · rfl
    split
    · rfl
    split <;> rfl
  release _ := rfl
  read capacity x := by
    simp only [linuxDevice, linuxRead]
    split
    · rfl
    split
    · rfl
    split <;> rfl
  failed image x status h := by
    simp only [linuxDevice, linuxReplace] at h ⊢
    split at h
    · next hlocked =>
        rw [if_pos hlocked]
        rfl
    · next hlocked =>
        obtain ⟨htarget, hpast⟩ := perform_keeps (d := x.disk) (killedAfter_error h).rename_notMem
        rw [if_neg hlocked, LinuxStorage.shown, htarget, hpast]
        rfl

omit [Primitives] in
/-- A successful replacement shows its image. -/
theorem shown_linuxReplace {image : Bytes} {x : LinuxStorage}
    (h : (linuxDevice.replace image x).1 = .ok ()) :
    (linuxDevice.replace image x).2.shown = (some ⟨image, true⟩, x.disk.target :: x.disk.past) := by
  simp only [linuxDevice, linuxReplace] at h ⊢
  split at h
  · cases h
  next hlocked =>
  obtain ⟨parts, hparts, heq⟩ := killedAfter_ok h
  rw [if_neg hlocked, heq, LinuxStorage.shown, perform_replacement, hparts]

/-- What a call leaves on the files: what they showed, or one more image before it. -/
theorem shown_call (c : ChainContext) (active : ChainState) (call : StorageCall)
    (x : LinuxStorage) :
    let o := call.run c linuxDevice active x
    (∀ status, o.status = .error status → o.device.shown = x.shown) ∧
      (o.status = .ok () → ∃ image,
        o.device.shown = (some ⟨image, true⟩, x.disk.target :: x.disk.past)) := by
  intro o
  obtain ⟨hfailed, hdone⟩ := call.run_publishesOnce (c := c) (x := x) linux_quiet
  refine ⟨hfailed, fun hok => ?_⟩
  obtain ⟨image, y, hy, hreplace, hdevice⟩ := hdone hok
  refine ⟨image, hdevice.trans ?_⟩
  rw [shown_linuxReplace hreplace]
  obtain ⟨htarget, hpast⟩ := Prod.mk.inj hy
  rw [htarget, hpast]

/-! ## The anchor of a stored history -/

section Anchors

variable {c c' : ChainContext} {image : Bytes} {v v' : StorageView}

/-- A decoded image starts with its genesis block. -/
theorem storageDecode_genesis (h : storageDecode c image = .ok v) :
    ∃ rest, v.blocks = c.genesisBytes :: rest := by
  obtain ⟨-, haccepts, -⟩ := storageDecode_image h
  obtain ⟨bytes, rest, hblocks⟩ := List.exists_cons_of_ne_nil (accepts_iff.mp haccepts).1
  rw [hblocks] at haccepts
  exact ⟨rest, by rw [hblocks, haccepts.head]⟩

/-- Contexts that decode one image have one genesis block. -/
theorem storageDecode_anchor (h : storageDecode c image = .ok v)
    (h' : storageDecode c' image = .ok v') : c'.genesisBytes = c.genesisBytes := by
  obtain ⟨rest, hrest⟩ := storageDecode_genesis h
  obtain ⟨rest', hrest'⟩ := storageDecode_genesis h'
  have hsame := (storageDecode_checked h).1.symm.trans (storageDecode_checked h').1
  rw [hrest, hrest'] at hsame
  exact (List.cons.inj (Option.some.inj hsame)).1.symm

theorem storageDecode_format (h : storageDecode c image = .ok v) :
    storageOverhead ≤ image.length ∧ storageFormat image = true := by
  simp only [storageDecode] at h
  split at h
  · cases h
  next hformat =>
  obtain ⟨hsize, hmagic⟩ := not_or.mp hformat
  exact ⟨Nat.le_of_not_lt hsize, by simpa using hmagic⟩

/-- A stored history gives its genesis block unless that block is empty. -/
theorem historyGenesis_of_decode (h : storageDecode c image = .ok v) :
    historyGenesis true (some image) =
      if blockHeaderSize + blockMinBody ≤ c.genesisBytes.length then .found c.genesisBytes
      else .unreadable := by
  obtain ⟨rest, hrest⟩ := storageDecode_genesis h
  obtain ⟨hsize, hformat⟩ := storageDecode_format h
  obtain ⟨-, haccepts, digest, himage⟩ := storageDecode_image h
  obtain ⟨b, hdecode⟩ := (accepts_iff.mp haccepts).2.decode_of_mem
    (hrest ▸ List.mem_cons_self : c.genesisBytes ∈ v.blocks)
  have hmax : c.genesisBytes.length ≤ blockMaxSize := by
    simp only [blockDecode] at hdecode
    split at hdecode
    · cases hdecode
    next hlimits => exact Nat.le_of_not_lt (not_or.mp hlimits).2
  have hcount : wireRead image 8 4 ≠ 0 := by
    rw [← (storedBlocks_eq (storageDecode_checked h).1).2, hrest]
    exact Nat.succ_ne_zero _
  -- The length and the octets of the first block stand behind the header of twelve octets.
  obtain ⟨header, tail, hheader, hparts⟩ : ∃ header tail : Bytes, header.length = 12 ∧
      image = header ++ (wireWrite 4 c.genesisBytes.length ++ (c.genesisBytes ++ tail)) := by
    rw [storageSigned, hrest, bodyBytes_cons] at himage
    refine ⟨[0x53, 0x54, 0x4e, 0x53] ++ wireWrite 2 1 ++ wireWrite 2 0 ++
      wireWrite 4 (c.genesisBytes :: rest).length, bodyBytes rest ++ octetBytes digest, by simp, ?_⟩
    rw [himage]
    simp only [List.append_assoc]
  have hfour : (wireWrite 4 c.genesisBytes.length).length = 4 := length_wireWrite 4 _
  have hlength : wireRead image 12 4 = c.genesisBytes.length := by
    rw [hparts, wireRead_append_right hheader.le, hheader, Nat.sub_self,
      wireRead_append_left hfour.ge, wireRead_wireWrite]
    exact hmax.trans_lt (by decide)
  have hdrop : image.drop 16 = c.genesisBytes ++ tail := by
    rw [hparts, ← List.append_assoc, List.drop_left']
    rw [List.length_append, hheader, hfour]
  have hroom : 16 + c.genesisBytes.length ≤ image.length := by
    rw [hparts]
    simp only [List.length_append, hheader, hfour]
    omega
  have hshort : ¬(image.length < 16 ∨ !storageFormat image ∨ wireRead image 8 4 = 0) := by
    simp only [storageOverhead] at hsize
    simp only [hformat, hcount]
    simp
    omega
  simp only [historyGenesis, Bool.not_true, Bool.false_eq_true, if_false, if_neg hshort, hlength,
    hdrop, List.take_left]
  by_cases hbody : blockHeaderSize + blockMinBody ≤ c.genesisBytes.length
  · rw [if_pos hbody, if_neg]
    simp only [not_or, not_lt]
    exact ⟨hbody, hmax, hroom⟩
  · rw [if_neg hbody, if_pos (.inl (Nat.lt_of_not_le hbody))]

end Anchors

/-! ## What survives -/

/-- Every file that may be shown holds a history of the context with some work. -/
structure Node.Durable (c : ChainContext) (work : ℕ) (n : Node) : Prop where
  complete : n.storage.disk.Complete fun image =>
    ∃ v, storageDecode c image = .ok v ∧ work ≤ v.state.cumulativeWork.toNat
  shown : none ∉ n.storage.disk.target :: n.storage.disk.past

/-- The file shows a view, and a process that runs has its state. -/
structure Node.Holds (c : ChainContext) (n : Node) (v : StorageView) : Prop where
  stored : ∃ f, n.storage.disk.target = some f ∧ storageDecode c f.content = .ok v
  running : ∀ c' s, n.running = some (c', s) → c' = c ∧ s = v.state

section Survival

variable {c : ChainContext} {work : ℕ} {n n' : Node} {v : StorageView} {x : LinuxStorage}

omit [Primitives] in
theorem Node.after_storage_shown (x : LinuxStorage) (kill : Option ℕ)
    (running : Option (ChainContext × ChainState)) :
    (Node.after x kill running).storage.shown = x.shown := by
  unfold Node.after
  split <;> rfl

omit [Primitives] in
theorem Node.after_running {kill : Option ℕ} {running : Option (ChainContext × ChainState)}
    {r : ChainContext × ChainState} (h : (Node.after x kill running).running = some r) :
    running = some r := by
  unfold Node.after at h
  split at h
  · cases h
  · exact h

theorem Node.Durable.keep (h : n.Durable c work) (hshown : n'.storage.shown = n.storage.shown) :
    n'.Durable c work := by
  have hkept := Prod.mk.inj hshown
  refine ⟨h.complete.keep hkept, ?_⟩
  rw [hkept.1, hkept.2]
  exact h.shown

theorem Node.Durable.work_le (h : n.Durable c work) {f : File UInt8}
    (htarget : n.storage.disk.target = some f) (hdecode : storageDecode c f.content = .ok v) :
    work ≤ v.state.cumulativeWork.toNat := by
  obtain ⟨-, v', hdecode', hle⟩ := h.complete f (List.mem_cons.mpr (.inl htarget.symm))
  rwa [Except.ok.inj (hdecode'.symm.trans hdecode)] at hle

/-- One more image before what is shown. -/
theorem Node.Durable.publish (h : n.Durable c work) {image : Bytes}
    (hshown : n'.storage.shown =
      (some ⟨image, true⟩, n.storage.disk.target :: n.storage.disk.past))
    (himage : ∃ v, storageDecode c image = .ok v ∧ work ≤ v.state.cumulativeWork.toNat) :
    n'.Durable c work := by
  obtain ⟨htarget, hpast⟩ := Prod.mk.inj hshown
  constructor
  · intro f hf
    rw [htarget, hpast] at hf
    rcases List.mem_cons.mp hf with hnew | hold
    · obtain rfl := Option.some.inj hnew
      exact ⟨rfl, himage⟩
    · exact h.complete f hold
  · rw [htarget, hpast]
    intro hnone
    rcases List.mem_cons.mp hnone with hnone | hnone
    · exact Option.some_ne_none _ hnone.symm
    · exact h.shown hnone

theorem Node.Holds.keep (h : n.Holds c v) (hshown : n'.storage.shown = n.storage.shown)
    (hrunning : ∀ c' s, n'.running = some (c', s) → c' = c ∧ s = v.state) : n'.Holds c v := by
  refine ⟨?_, hrunning⟩
  rw [(Prod.mk.inj hshown).1]
  exact h.stored

theorem nodeContext_genesis {genesis : Bytes} (h : nodeContext genesis = some c) :
    c.genesisBytes = genesis := by
  simp only [nodeContext] at h
  split at h
  · cases h
  split at h
  · cases h
  · rw [← Option.some.inj h]

/-- A start that succeeds where a history is stored runs with its context and state. -/
theorem nodeStartup_spec (hc : nodeContext c.genesisBytes = some c) {f : File UInt8}
    (htarget : x.disk.target = some f) (hdecode : storageDecode c f.content = .ok v)
    (u : Startup) :
    (nodeStartup u x).2.shown = x.shown ∧
      ∀ c' s, (nodeStartup u x).1 = some (c', s) → c' = c ∧ s = v.state := by
  have hpersisted : linuxDevice.persisted x = some f.content := by
    rw [persisted_linuxDevice, htarget, Option.map_some]
  simp only [nodeStartup]
  split
  · exact ⟨rfl, by simp⟩
  next genesis hgenesis =>
  split
  · exact ⟨rfl, by simp⟩
  next c' hcontext =>
  have hshown := view_storageLoad (c := c') linux_quiet (startupCapacity u x.snapshot genesis) x
  have hloaded : ∀ view,
      (storageLoad c' linuxDevice (startupCapacity u x.snapshot genesis) x).1 = .ok view →
        ∃ image, linuxDevice.persisted x = some image ∧ storageDecode c' image = .ok view :=
    fun _ => storageLoad_decoded
  split
  · next view x' hload =>
      rw [hload] at hshown hloaded
      refine ⟨hshown, fun c'' s hsome => ?_⟩
      obtain ⟨rfl, rfl⟩ := Prod.mk.inj (Option.some.inj hsome)
      obtain ⟨image, himage, hview⟩ := hloaded view rfl
      obtain rfl := Option.some.inj (hpersisted.symm.trans himage)
      -- The context of a start is that of its genesis block, and the history has only one.
      have hsame : c' = c := by
        have hanchor := storageDecode_anchor hdecode hview
        rw [← nodeContext_genesis hcontext, hanchor, hc] at hcontext
        exact (Option.some.inj hcontext).symm
      subst hsame
      exact ⟨rfl, by rw [Except.ok.inj (hview.symm.trans hdecode)]⟩
  · next x' hload =>
      rw [hload] at hshown
      have hcreate := shown_call c' (emptyState c' 0)
        (.create [genesis] (startupCapacity u x.snapshot genesis)) x'
      have hfresh := @storageCreate_fresh _ _ linuxDevice c' (emptyState c' 0) x' [genesis]
        (startupCapacity u x.snapshot genesis)
      simp only [StorageCall.run] at hcreate
      split
      · next hok =>
          have hmissing := hfresh hok
          rw [persisted_linuxDevice, (Prod.mk.inj hshown).1, htarget] at hmissing
          cases hmissing
      · next status hfailed => exact ⟨(hcreate.1 status hfailed).trans hshown, by simp⟩
  · next x' hload =>
      rw [hload] at hshown
      exact ⟨hshown, by simp⟩

/-- Every event leaves a history of the context on the files and, unless the power fails, one
with no less work than before. -/
theorem nodeStep_holds (hc : nodeContext c.genesisBytes = some c) (hdurable : n.Durable c work)
    (hholds : n.Holds c v) (event : NodeEvent) :
    (nodeStep n event).Durable c work ∧ ∃ v', (nodeStep n event).Holds c v' ∧
      ((∀ l, event ≠ .powerLost l) →
        v.state.cumulativeWork.toNat ≤ v'.state.cumulativeWork.toNat) := by
  obtain ⟨f, htarget, hdecode⟩ := hholds.stored
  -- An event after which the files show what they did.
  have hkeep : ∀ n' : Node, n'.storage.shown = n.storage.shown →
      (∀ c' s, n'.running = some (c', s) → c' = c ∧ s = v.state) →
      n'.Durable c work ∧ ∃ v', n'.Holds c v' ∧ ((∀ l, event ≠ .powerLost l) →
        v.state.cumulativeWork.toNat ≤ v'.state.cumulativeWork.toNat) :=
    fun n' hshown hrunning =>
      ⟨hdurable.keep hshown, v, hholds.keep hshown hrunning, fun _ => le_rfl⟩
  cases event with
  | killed => exact hkeep _ rfl (by simp [nodeStep, Node.ended])
  | load capacity =>
      simp only [nodeStep]
      split
      · exact hkeep n rfl hholds.running
      · next c' s hrunning =>
          exact hkeep _ (view_storageLoad linux_quiet capacity n.storage) hholds.running
  | start u =>
      simp only [nodeStep]
      split
      · exact hkeep n rfl hholds.running
      · obtain ⟨hshown, hstarted⟩ := nodeStartup_spec hc
          (x := { n.storage with kill := u.kill }) htarget hdecode u
        refine hkeep _ ((Node.after_storage_shown ..).trans hshown) ?_
        intro c' s hrunning
        exact hstarted c' s (Node.after_running hrunning)
  | powerLost l =>
      have hcomplete := hdurable.complete.lose l
      have hmem : (n.storage.disk.lose l).target ∈ n.storage.disk.target :: n.storage.disk.past :=
        hcomplete.2
      cases hlost : (n.storage.disk.lose l).target with
      | none => exact absurd (hlost ▸ hmem) hdurable.shown
      | some f' =>
          obtain ⟨-, v', hdecode', hwork⟩ := hdurable.complete f' (hlost ▸ hmem)
          refine ⟨⟨hcomplete.1, ?_⟩, v', ⟨⟨f', hlost, hdecode'⟩, by simp [nodeStep, Node.ended]⟩,
            fun hpower => absurd rfl (hpower l)⟩
          intro hnone
          rcases List.mem_cons.mp hnone with hnone | hnone
          · exact Option.some_ne_none f' (hlost.symm.trans hnone.symm)
          · exact absurd hnone List.not_mem_nil
  | call call kill =>
      simp only [nodeStep]
      split
      · exact hkeep n rfl hholds.running
      next c' active hrunning =>
      obtain ⟨rfl, rfl⟩ := hholds.running c' active hrunning
      obtain ⟨hfailed, hdone⟩ := shown_call c' v.state call { n.storage with kill }
      obtain ⟨hunchanged, hpublished⟩ := call.run_atomic (c := c') (d := linuxDevice)
        (x := { n.storage with kill })
      generalize call.run c' linuxDevice v.state { n.storage with kill } = o at *
      have hshown := Node.after_storage_shown o.device kill (some (c', o.active))
      have hactive : ∀ c'' s, (Node.after o.device kill (some (c', o.active))).running =
          some (c'', s) → c'' = c' ∧ s = o.active := by
        intro c'' s hafter
        obtain ⟨rfl, rfl⟩ := Prod.mk.inj (Option.some.inj (Node.after_running hafter))
        exact ⟨rfl, rfl⟩
      cases hstatus : o.status with
      | error status =>
          refine hkeep _ (hshown.trans (hfailed status hstatus)) ?_
          rw [← (hunchanged status hstatus).2]
          exact hactive
      | ok _ =>
          obtain ⟨image, hone⟩ := hdone hstatus
          obtain ⟨image', blocks, hpersisted, hdecode', -, hpublishes⟩ := hpublished hstatus
          rw [persisted_linuxDevice, (Prod.mk.inj hone).1] at hpersisted
          obtain rfl := Option.some.inj hpersisted
          have hlater := hpublishes.work f.content v
            (by rw [persisted_linuxDevice, htarget, Option.map_some]) hdecode
          have hwork := hdurable.work_le htarget hdecode
          exact ⟨hdurable.publish (hshown.trans hone) ⟨_, hdecode', hwork.trans hlater.le⟩,
            ⟨blocks, o.active⟩, ⟨⟨_, (Prod.mk.inj (hshown.trans hone)).1, hdecode'⟩, hactive⟩,
            fun _ => hlater.le⟩

theorem nodeRun_holds (hc : nodeContext c.genesisBytes = some c) (hdurable : n.Durable c work)
    (hholds : n.Holds c v) (events : List NodeEvent) :
    (nodeRun n events).Durable c work ∧ ∃ v', (nodeRun n events).Holds c v' ∧
      ((∀ l, NodeEvent.powerLost l ∉ events) →
        v.state.cumulativeWork.toNat ≤ v'.state.cumulativeWork.toNat) := by
  induction events generalizing n v with
  | nil => exact ⟨hdurable, v, hholds, fun _ => le_rfl⟩
  | cons event rest ih =>
      obtain ⟨hdurable', v₁, hholds', hle⟩ := nodeStep_holds hc hdurable hholds event
      obtain ⟨hdurable'', v₂, hholds'', hle'⟩ := ih hdurable' hholds'
      refine ⟨hdurable'', v₂, hholds'', fun hpower => ?_⟩
      have hfirst := hle fun l heq => hpower l (heq ▸ List.mem_cons_self)
      exact hfirst.trans (hle' fun l hmem => hpower l (List.mem_cons_of_mem event hmem))

end Survival

/-! ## Starting again -/

/-- No call of the adapter fails. -/
structure SystemAnswers.Obliges (a : SystemAnswers) : Prop where
  opens : a.opens = true
  ordinary : a.ordinary = true
  flock : a.flock = .granted
  moved : ∀ offset, ∃ k, a.moved offset = some (k + 1)
  close : a.close = true

/-- A start selects the genesis block of a history that is stored.  The block is read back from
the file only if it carries a transaction. -/
def Startup.Selects (c : ChainContext) (u : Startup) : Prop :=
  match u.anchor with
  | .history => u.readable = true ∧ blockHeaderSize + blockMinBody ≤ c.genesisBytes.length
  | .development => developmentGenesis = c.genesisBytes
  | .selected file => file = some c.genesisBytes

section Restarts

variable {c : ChainContext} {n : Node} {v : StorageView} {x : LinuxStorage} {f : File UInt8}
  {u : Startup}

omit [Primitives] in
theorem readLoop_obliges {moved : ℕ → Option ℕ} (h : ∀ offset, ∃ k, moved offset = some (k + 1))
    (content : Bytes) (turns offset : ℕ) :
    ∃ bytes, readLoop moved content turns offset = some bytes := by
  induction turns generalizing offset with
  | zero => exact ⟨[], rfl⟩
  | succ turns ih =>
      obtain ⟨k, hk⟩ := h offset
      rw [readLoop]
      split
      · obtain ⟨rest, hrest⟩ := ih (offset + (movedPart content offset (k + 1)).length)
        simp only [hk, hrest]
        exact ⟨_, rfl⟩
      · exact ⟨[], rfl⟩

/-- A load that meets no failure decodes the file. -/
theorem storageLoad_obliges {capacity : ℕ} (hlocked : x.locked = false)
    (hanswers : ∀ k, x.calls ≤ k → (x.answers k).Obliges) (htarget : x.disk.target = some f)
    (hfits : f.content.length ≤ capacity) :
    (storageLoad c linuxDevice capacity x).1 = storageDecode c f.content := by
  have hfirst := hanswers x.calls le_rfl
  have hsecond := hanswers (x.calls + 1) (Nat.le_succ _)
  have hacquire : linuxDevice.acquire x = (.ok (), { x.next with locked := true }) := by
    simp only [linuxDevice, linuxAcquire, LinuxStorage.answer, hlocked, hfirst.opens,
      hfirst.ordinary, hfirst.flock]
    rfl
  obtain ⟨bytes, hbytes⟩ := readLoop_obliges hsecond.moved f.content f.content.length 0
  have hturns : f.content.length ≤ f.content.length + 0 := le_rfl
  have hwhole := readLoop_eq_some hturns hbytes
  rw [List.drop_zero] at hwhole
  have hread : (linuxDevice.read capacity { x.next with locked := true }).1 = .ok f.content := by
    simp only [linuxDevice, linuxRead, LinuxStorage.next, LinuxStorage.answer, htarget,
      hsecond.opens, hsecond.ordinary, hsecond.close, hbytes, hwhole,
      if_neg (Nat.not_lt.mpr hfits)]
    rfl
  simp only [storageLoad, hacquire, readLocked]
  split
  · next status x' hfailed =>
      rw [hfailed] at hread
      cases hread
  · next image x' hok =>
      rw [hok] at hread
      obtain rfl := Except.ok.inj hread
      rw [if_neg (Nat.not_lt.mpr hfits)]
      cases storageDecode c f.content with
      | error status => rfl
      | ok view => rfl

/-- The genesis block of a started node is the one its start selected. -/
theorem nodeStartup_genesis {s : ChainState} (h : (nodeStartup u x).1 = some (c, s)) :
    u.genesis x.snapshot = some c.genesisBytes := by
  simp only [nodeStartup] at h
  split at h
  · cases h
  next genesis hgenesis =>
  split at h
  · cases h
  next c' hcontext =>
  have hsame : c' = c := by
    split at h
    · exact (Prod.mk.inj (Option.some.inj h)).1
    · split at h
      · exact (Prod.mk.inj (Option.some.inj h)).1
      · cases h
    · cases h
  rw [hgenesis, ← hsame, nodeContext_genesis hcontext]

theorem Startup.genesis_eq_iff (hdecode : storageDecode c f.content = .ok v) :
    u.genesis (some f.content) = some c.genesisBytes ↔ u.Selects c := by
  simp only [Startup.genesis, Startup.Selects]
  cases u.anchor with
  | development => exact Option.some_inj
  | selected file => exact Iff.rfl
  | history =>
      cases hreadable : u.readable with
      | false => simp [historyGenesis]
      | true =>
          rw [historyGenesis_of_decode hdecode]
          by_cases hbody : blockHeaderSize + blockMinBody ≤ c.genesisBytes.length
          · simp [hbody]
          · simp [hbody]

/-- A start that meets no failure runs with the stored state exactly if it selects the genesis
block of the stored history. -/
theorem Node.Holds.start_iff (h : n.Holds c v) (hc : nodeContext c.genesisBytes = some c)
    (hanswers : ∀ k, n.storage.calls ≤ k → (n.storage.answers k).Obliges)
    (hstatted : u.statted = true) (hkill : u.kill = none) :
    (nodeStep n.ended (.start u)).running = some (c, v.state) ↔ u.Selects c := by
  obtain ⟨f, htarget, hdecode⟩ := h.stored
  have hstep : nodeStep n.ended (.start u) =
      ⟨(nodeStartup u n.ended.storage).2, (nodeStartup u n.ended.storage).1⟩ := by
    simp only [nodeStep, Node.ended, Node.after, hkill]
    rfl
  have hsnapshot : n.ended.storage.snapshot = some f.content := by
    simp only [LinuxStorage.snapshot, Node.ended, htarget, Option.map_some]
  rw [hstep, ← Startup.genesis_eq_iff hdecode, ← hsnapshot]
  constructor
  · exact nodeStartup_genesis
  intro hgenesis
  have hfits : f.content.length ≤
      startupCapacity u n.ended.storage.snapshot c.genesisBytes := by
    simp only [startupCapacity, hstatted, hsnapshot, if_true, Option.map_some, Option.getD_some]
    exact (le_max_right _ _).trans (le_max_left _ _)
  have hload := storageLoad_obliges (c := c) (x := n.ended.storage) rfl hanswers htarget hfits
  rw [hdecode] at hload
  simp only [nodeStartup, hgenesis, hc]
  split
  · next view x' hok =>
      rw [hok] at hload
      rw [Except.ok.inj hload]
  · next x' hmissing =>
      rw [hmissing] at hload
      cases hload
  · next status x' hfailed =>
      rw [hfailed] at hload
      cases hload

/-- From a stopped node whose history has reached the medium on, over every run of calls, kills,
losses of power and starts: the files hold a history of the same genesis block with no less work
than at the start and, while the power does not fail, than at any earlier point; a process that
runs has the state of that history; and a start that meets no failure resumes it exactly if it
selects its genesis block. -/
theorem restart_resumes (hc : nodeContext c.genesisBytes = some c) (hstopped : n.running = none)
    (htarget : n.storage.disk.target = some f) (hsynced : f.synced = true)
    (hpast : n.storage.disk.past = []) (hdecode : storageDecode c f.content = .ok v)
    (first rest : List NodeEvent) :
    ∃ before after, (nodeRun n first).Holds c before ∧ (nodeRun n (first ++ rest)).Holds c after ∧
      v.state.cumulativeWork.toNat ≤ after.state.cumulativeWork.toNat ∧
      ((∀ l, NodeEvent.powerLost l ∉ rest) →
        before.state.cumulativeWork.toNat ≤ after.state.cumulativeWork.toNat) ∧
      ((∀ k, (nodeRun n (first ++ rest)).storage.calls ≤ k →
        ((nodeRun n (first ++ rest)).storage.answers k).Obliges) →
        ∀ u : Startup, u.statted = true → u.kill = none →
          ((nodeStep (nodeRun n (first ++ rest)).ended (.start u)).running =
            some (c, after.state) ↔ u.Selects c)) := by
  have hdurable : n.Durable c v.state.cumulativeWork.toNat := by
    constructor
    · intro g hg
      rw [htarget, hpast, List.mem_singleton] at hg
      obtain rfl := Option.some.inj hg
      exact ⟨hsynced, v, hdecode, le_rfl⟩
    · rw [htarget, hpast, List.mem_singleton]
      exact fun h => Option.some_ne_none f h.symm
  have hholds : n.Holds c v := by
    refine ⟨⟨f, htarget, hdecode⟩, fun c' s hrunning => ?_⟩
    rw [hstopped] at hrunning
    cases hrunning
  obtain ⟨hdurable', before, hbefore, -⟩ := nodeRun_holds hc hdurable hholds first
  obtain ⟨hdurable'', after, hafter, hle⟩ := nodeRun_holds hc hdurable' hbefore rest
  have hsplit : nodeRun n (first ++ rest) = nodeRun (nodeRun n first) rest := List.foldl_append
  rw [hsplit]
  obtain ⟨g, hg, hdecode'⟩ := hafter.stored
  exact ⟨before, after, hbefore, hafter, hdurable''.work_le hg hdecode', hle,
    fun hanswers u hstatted hkill => hafter.start_iff hc hanswers hstatted hkill⟩

end Restarts

end

section Sample

attribute [local instance] Sample.storing

namespace Sample

/-- A stopped node on an obliging system that stores the sample genesis block. -/
def storingNode : Node where
  storage := ⟨⟨some ⟨imageOf [genesis], true⟩, none, []⟩, false, fun _ => obliging, none, 0⟩
  running := none

theorem nodeContext_sample : nodeContext genesis = some storingContext := by
  have hheader : (blockDecode genesis).toOption.map (fun b =>
      (b.header.version, b.header.networkId, b.header.reservedTarget)) =
        some (powBlockVersion, storingContext.networkId, target) := by
    decide +kernel
  cases hdecode : blockDecode genesis with
  | error status =>
      rw [hdecode] at hheader
      cases hheader
  | ok b =>
      rw [hdecode] at hheader
      obtain ⟨hversion, hrest⟩ := Prod.mk.inj (Option.some.inj hheader)
      obtain ⟨hnetwork, htarget⟩ := Prod.mk.inj hrest
      simp only [nodeContext, hdecode, hversion, hnetwork, htarget]
      rfl

theorem obliging_obliges : obliging.Obliges :=
  ⟨rfl, rfl, rfl, fun _ => ⟨transferRequest - 1, rfl⟩, rfl⟩

end Sample

open Sample

/-- The sample genesis block is empty: its history is resumed where the block is given again,
and not where it would be read back. -/
theorem sample_restart_resumes : ∃ after,
    (nodeRun storingNode [.powerLost ⟨1, [7], none⟩, .killed]).Holds storingContext after ∧
    (nodeStep (nodeRun storingNode [.powerLost ⟨1, [7], none⟩, .killed]).ended
      (.start ⟨.selected (some genesis), true, true, none⟩)).running =
        some (storingContext, after.state) ∧
    (nodeStep (nodeRun storingNode [.powerLost ⟨1, [7], none⟩, .killed]).ended
      (.start ⟨.history, true, true, none⟩)).running ≠ some (storingContext, after.state) := by
  obtain ⟨t, ht, -⟩ := accepts_genesis
  have hv := storageDecode_of_encode (by decide) ht
    (storageEncode_imageOf ht (by decide) (by decide +kernel))
  obtain ⟨before, after, -, hafter, -, -, hstart⟩ :=
    restart_resumes (c := storingContext) (n := storingNode) nodeContext_sample rfl rfl rfl rfl hv
      [.powerLost ⟨1, [7], none⟩] [.killed]
  have hobliges := hstart fun _ _ => obliging_obliges
  refine ⟨after, hafter, (hobliges _ rfl rfl).mpr rfl, fun hresumed => ?_⟩
  have hshort : ¬blockHeaderSize + blockMinBody ≤ genesis.length := by decide +kernel
  exact hshort ((hobliges _ rfl rfl).mp hresumed).2

end Sample

end StnChain
