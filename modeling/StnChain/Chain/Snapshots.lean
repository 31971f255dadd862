import StnChain.Chain.ContractRun
import StnChain.Contract.Borrowing

/-!
# Runs over contract snapshots

Snapshots are created, cloned, shared, registered to, voted and acted on, and released, in
any order.  Every one of them borrows from its own draft buffer at all times
(`snapshot_integrity`): a step changes the content of one snapshot, to what the operation
makes of it by value, or of none.
-/

namespace StnChain

open Allocations

/-! ## Sound worlds -/

/-- Every snapshot in use borrows from a draft buffer of its own and reads as its value. -/
structure SnapshotWorld.Sound (w : SnapshotWorld) (values : ℕ → Option ContractSnapshot) :
    Prop where
  fresh : w.memory.Fresh
  unused : ∀ a ≥ w.next, w.snapshots a = none
  represents : ∀ a o, w.snapshots a = some o → ∃ s, values a = some s ∧
    o.Represents w.memory a s
  absent : ∀ a, w.snapshots a = none → values a = none
  separate : ∀ a a' o o' block, w.snapshots a = some o → w.snapshots a' = some o' →
    o.draftBytes = some block → o'.draftBytes = some block → a = a'

namespace SnapshotWorld

variable {w w' : SnapshotWorld} {values : ℕ → Option ContractSnapshot} {a : ℕ}
  {o o' : SnapshotRecord} {s s' : ContractSnapshot}

theorem sound_empty : empty.Sound fun _ => none where
  fresh := Memory.fresh_empty
  unused _ _ := rfl
  represents _ _ h := by cases h
  absent _ _ := rfl
  separate _ _ _ _ _ h := by cases h

theorem Sound.content_eq (h : w.Sound values) (a : ℕ) : w.content a = values a := by
  cases ho : w.snapshots a with
  | none =>
      rw [h.absent a ho, content, ho]
      rfl
  | some o =>
      obtain ⟨s, hvalue, hs⟩ := h.represents a o ho
      rw [hvalue]
      exact SnapshotWorld.content_eq ho hs

theorem Sound.exists_of_value (h : w.Sound values) (hs : values a = some s) :
    ∃ o, w.snapshots a = some o ∧ o.Represents w.memory a s := by
  cases ho : w.snapshots a with
  | none =>
      rw [h.absent a ho] at hs
      cases hs
  | some o =>
      obtain ⟨t, ht, hrep⟩ := h.represents a o ho
      rw [hs] at ht
      exact ⟨o, rfl, Option.some.inj ht ▸ hrep⟩

theorem Sound.bind_eq (h : w.Sound values) (hs : values a = some s) :
    contractSnapshotBind s = some s := by
  obtain ⟨o, -, hrep⟩ := h.exists_of_value hs
  exact hrep.bind_eq

theorem Sound.block_ne_next (h : w.Sound values) (ho : w.snapshots a = some o) {block : ℕ}
    (hblock : o.draftBytes = some block) : block ≠ w.memory.next := by
  obtain ⟨s, -, hs⟩ := h.represents a o ho
  obtain ⟨octets, hholds, -⟩ := hs.entries
  rw [hblock] at hholds
  exact h.fresh.ne_next hholds

/-- One snapshot is changed, with a buffer that is no other snapshot's, and the buffers of
the others are left alone. -/
theorem Sound.update (h : w.Sound values)
    (hsnapshots : w'.snapshots = Function.update w.snapshots a (some o'))
    (hfresh : w'.memory.Fresh) (hnext : w.next ≤ w'.next) (ha : a < w'.next)
    (hothers : ∀ b o block, b ≠ a → w.snapshots b = some o → o.draftBytes = some block →
      w'.memory.blocks block = w.memory.blocks block ∧ o'.draftBytes ≠ some block)
    (hs' : o'.Represents w'.memory a s') : w'.Sound (Function.update values a (some s')) := by
  have hself : w'.snapshots a = some o' := by rw [hsnapshots, Function.update_self]
  have helse (b : ℕ) (hb : b ≠ a) : w'.snapshots b = w.snapshots b := by
    rw [hsnapshots, Function.update_of_ne hb]
  constructor
  case fresh => exact hfresh
  case unused =>
    intro b hb
    rw [helse b (by omega)]
    exact h.unused b (hnext.trans hb)
  case represents =>
    intro b o ho
    by_cases hb : b = a
    · subst hb
      rw [hself] at ho
      obtain rfl := Option.some.inj ho
      exact ⟨s', Function.update_self .., hs'⟩
    · rw [helse b hb] at ho
      obtain ⟨s, hvalue, hs⟩ := h.represents b o ho
      refine ⟨s, by rw [Function.update_of_ne hb]; exact hvalue, hs.of_blocks ?_⟩
      intro block hblock
      exact (hothers b o block hb ho hblock).1
  case absent =>
    intro b hnone
    by_cases hb : b = a
    · rw [hb, hself] at hnone
      cases hnone
    · rw [helse b hb] at hnone
      rw [Function.update_of_ne hb]
      exact h.absent b hnone
  case separate =>
    intro b b' p p' block hp hp' hblock hblock'
    by_cases hb : b = a <;> by_cases hb' : b' = a
    · rw [hb, hb']
    · rw [helse b' hb'] at hp'
      rw [hb, hself] at hp
      obtain rfl := Option.some.inj hp
      exact absurd hblock (hothers b' p' block hb' hp' hblock').2
    · rw [helse b hb] at hp
      rw [hb', hself] at hp'
      obtain rfl := Option.some.inj hp'
      exact absurd hblock' (hothers b p block hb hp hblock).2
    · rw [helse b hb] at hp
      rw [helse b' hb'] at hp'
      exact h.separate b b' p p' block hp hp' hblock hblock'

theorem Sound.lt_next (h : w.Sound values) (ho : w.snapshots a = some o) : a < w.next := by
  by_contra hge
  rw [h.unused a (Nat.le_of_not_lt hge)] at ho
  cases ho

/-- A snapshot is changed and keeps its buffer. -/
theorem Sound.put (h : w.Sound values) (ho : w.snapshots a = some o)
    (hdrafts : o'.draftBytes = o.draftBytes) (hs' : o'.Represents w.memory a s') :
    (w.put a o').Sound (Function.update values a (some s')) := by
  refine h.update rfl h.fresh le_rfl (h.lt_next ho) ?_ hs'
  intro b p block hb hp hblock
  refine ⟨rfl, ?_⟩
  rw [hdrafts]
  intro hsame
  exact hb (h.separate b a p o block hp ho hblock hsame)

/-! ## Creating, copying and releasing -/

theorem snapshotCreate_sound (h : w.Sound values) (allocates : Bool) :
    match (w.snapshotCreate allocates).1 with
    | none => (w.snapshotCreate allocates).2.Sound values
    | some b => w.snapshots b = none ∧ (w.snapshotCreate allocates).2.Sound
        (Function.update values b (some contractSnapshotCreate)) := by
  cases allocates with
  | false => exact h
  | true =>
      refine ⟨h.unused _ le_rfl, h.update rfl h.fresh (Nat.le_succ _) (Nat.lt_succ_self _) ?_ ?_⟩
      · intro b p block _ _ _
        exact ⟨rfl, nofun⟩
      · exact ⟨(by decide : (1 : UInt64) ≠ 0), rfl, rfl, ⟨rfl, rfl⟩, ⟨rfl, rfl⟩,
          rfl, rfl, [], rfl, rfl, .nil⟩

theorem snapshotShare_sound (h : w.Sound values) (a : ℕ) :
    (w.snapshotShare a).2.Sound values := by
  rw [snapshotShare]
  cases ho : w.snapshots a with
  | none => exact h
  | some o =>
      dsimp only
      split
      · exact h
      next hcount =>
      obtain ⟨s, hvalue, hs⟩ := h.represents a o ho
      have hraised : o.references + 1 ≠ 0 := by
        grind
      have hput : (w.put a { o with references := o.references + 1 }).Sound
          (Function.update values a (some s)) :=
        h.put ho rfl { hs with references := hraised }
      rw [← hvalue, Function.update_eq_self] at hput
      exact hput

/-- A snapshot goes away, with its buffer. -/
theorem Sound.remove (h : w.Sound values) (ho : w.snapshots a = some o) :
    SnapshotWorld.Sound { w with
      memory := w.memory.release o.draftBytes
      snapshots := Function.update w.snapshots a none } (Function.update values a none) := by
  have helse {b : ℕ} {p : SnapshotRecord}
      (hp : Function.update w.snapshots a none b = some p) : b ≠ a ∧ w.snapshots b = some p := by
    by_cases hb : b = a
    · rw [hb, Function.update_self] at hp
      cases hp
    · rw [Function.update_of_ne hb] at hp
      exact ⟨hb, hp⟩
  constructor
  case fresh => exact h.fresh.release _
  case unused =>
    intro b hb
    by_cases hba : b = a
    · rw [hba]
      exact Function.update_self ..
    · show Function.update w.snapshots a none b = none
      rw [Function.update_of_ne hba]
      exact h.unused b hb
  case represents =>
    intro b p hp
    obtain ⟨hb, hp⟩ := helse hp
    obtain ⟨s, hvalue, hs⟩ := h.represents b p hp
    refine ⟨s, by rw [Function.update_of_ne hb]; exact hvalue, hs.of_blocks ?_⟩
    intro block hblock
    apply Memory.blocks_release
    intro hsame
    exact hb (h.separate b a p o block hp ho hblock hsame)
  case absent =>
    intro b hnone
    by_cases hb : b = a
    · rw [hb, Function.update_self]
    · rw [Function.update_of_ne hb]
      apply h.absent b
      exact (Function.update_of_ne hb ..).symm.trans hnone
  case separate =>
    intro b b' p p' block hp hp' hblock hblock'
    exact h.separate b b' p p' block (helse hp).2 (helse hp').2 hblock hblock'

/-- The last release takes the snapshot away. -/
theorem snapshotRelease_sound (h : w.Sound values) (a : ℕ) :
    (w.snapshotRelease a).Sound
      (if ((w.snapshotRelease a).snapshots a).isNone then Function.update values a none
        else values) := by
  rw [snapshotRelease]
  cases ho : w.snapshots a with
  | none =>
      simp only [ho, Option.isNone_none, if_true]
      rw [← h.absent a ho, Function.update_eq_self]
      exact h
  | some o =>
      obtain ⟨s, hvalue, hs⟩ := h.represents a o ho
      dsimp only
      split
      · simp only [Function.update_self, Option.isNone_none, if_true]
        exact h.remove ho
      next hcount =>
      have hput : (w.put a { o with references := o.references - 1 }).Sound
          (Function.update values a (some s)) :=
        h.put ho rfl { hs with references := hcount }
      rw [← hvalue, Function.update_eq_self] at hput
      simp only [snapshots_put_self, Option.isNone_some, Bool.false_eq_true, if_false]
      exact hput

/-- A copy is bound to a buffer with the octets of its source. -/
theorem bindCopy_sound (h : w.Sound values)
    (hs : o.Represents w.memory a s) {m : Memory UInt8} {draftBytes : Option ℕ} {octets : Bytes}
    {entries : List EntryRecord} (hm : m.Fresh)
    (hkept : ∀ block, block ≠ w.memory.next → m.blocks block = w.memory.blocks block)
    (hdrafts : ∀ block, draftBytes = some block → block = w.memory.next)
    (hbound : (w.copyRecord m o draftBytes).bind w.next o.draftBytes =
      (true, (w.copyRecord m o draftBytes).put w.next { o with
        references := 1
        draftBytes
        state := { o.state with
          home := w.next
          entryCapacity := contractStateMaxContracts
          voteCapacity := contractStateMaxVotes }
        entries }))
    (hholds : BufferHolds m draftBytes octets) (hsize : octets.length = o.draftBytesLength)
    (hentries : List.Forall₂ (EntryRecord.At draftBytes octets) entries s.state.entries) :
    ∃ w', (w.copyRecord m o draftBytes).bindCopy w.next draftBytes o.draftBytes =
        (some w.next, w') ∧ w'.Sound (Function.update values w.next (some s)) := by
  obtain ⟨octets', -, -, hold⟩ := hs.entries
  have hcount : o.state.entryCount = entries.length := by
    rw [hs.count, hold.length_eq, hentries.length_eq]
  refine ⟨_, by rw [bindCopy, hbound], ?_⟩
  refine h.update (Function.update_idem ..) hm (Nat.le_succ _) (Nat.lt_succ_self _) ?_ ?_
  · intro b p block _ hp hblock
    have hne := h.block_ne_next hp hblock
    refine ⟨hkept block hne, ?_⟩
    intro hsame
    exact hne (hdrafts block hsame)
  · exact ⟨(by decide : (1 : UInt64) ≠ 0), rfl, hcount, ⟨rfl, rfl⟩, hs.capacities', hs.voteCount,
      hs.votes, octets, hholds, hsize, hentries⟩

/-- A clone has a buffer of its own with the octets of its source, and its content. -/
theorem snapshotClone_sound (h : w.Sound values) (a : ℕ) (allocates allocatesDrafts : Bool) :
    match (w.snapshotClone a allocates allocatesDrafts).1 with
    | none => (w.snapshotClone a allocates allocatesDrafts).2.Sound values
    | some b => w.snapshots a ≠ none ∧ w.snapshots b = none ∧
        (w.snapshotClone a allocates allocatesDrafts).2.Sound
          (Function.update values b (values a)) := by
  rw [snapshotClone]
  cases ho : w.snapshots a with
  | none => exact h
  | some source =>
  obtain ⟨s, hvalue, hs⟩ := h.represents a source ho
  obtain ⟨octets, hholds, hsize, hentries⟩ := hs.entries
  have hcopied (m : Memory UInt8) (draftBytes : Option ℕ) :
      (w.copyRecord m source draftBytes).snapshots w.next =
        some { source with references := 1, draftBytes } :=
    Function.update_self ..
  dsimp only
  by_cases hrefused : source.references = 0 ∨ allocates = false
  · rw [if_pos hrefused]
    exact h
  rw [if_neg hrefused]
  by_cases hempty : source.draftBytesLength = 0
  · rw [if_pos hempty]
    have hnil : octets = [] := List.length_eq_zero_iff.mp (hsize.trans hempty)
    obtain ⟨hnone, hnone'⟩ := nil_of_at hnil hentries
    have hbound : (w.copyRecord w.memory source none).bind w.next source.draftBytes = (true,
        (w.copyRecord w.memory source none).put w.next { source with
          references := 1
          draftBytes := none
          state := { source.state with
            home := w.next
            entryCapacity := contractStateMaxContracts
            voteCapacity := contractStateMaxVotes }
          entries := [] }) := by
      rw [SnapshotWorld.bind, hcopied]
      simp only [hnone, List.take_nil, List.drop_nil, bindEntries, List.append_nil]
    have hnothing : BufferHolds w.memory none [] := rfl
    obtain ⟨w', hclone, hsound⟩ := bindCopy_sound h hs h.fresh (fun _ _ => rfl)
      (fun _ hnone => by cases hnone) hbound hnothing hempty.symm (by rw [hnone']; exact .nil)
    rw [hclone]
    exact ⟨Option.some_ne_none _, h.unused _ le_rfl, by rw [hvalue]; exact hsound⟩
  rw [if_neg hempty]
  by_cases hfull : allocatesDrafts = false
  · rw [if_pos hfull]
    exact ⟨h.fresh, fun b hb => h.unused b (Nat.le_of_succ_le hb), h.represents, h.absent,
      h.separate⟩
  rw [if_neg hfull, draftOctets_eq hholds hsize]
  have hblock : (w.memory.allocate octets).2.blocks w.memory.next = some (octets ++ []) := by
    rw [List.append_nil]
    exact Memory.blocks_allocate_next w.memory octets
  obtain ⟨entries, hbound, hmoved⟩ :=
    bind_at (hcopied _ _) hs.count rfl hblock hsize.le hentries
  obtain ⟨w', hclone, hsound⟩ := bindCopy_sound h hs (h.fresh.allocate octets)
    (fun block hblock => Memory.blocks_allocate hblock octets)
    (fun block hblock => (Option.some.inj hblock).symm) hbound
    (Memory.blocks_allocate_next w.memory octets) hsize hmoved
  rw [show w.memory.allocate octets = (w.memory.next, (w.memory.allocate octets).2) from rfl]
  dsimp only
  rw [hclone]
  exact ⟨Option.some_ne_none _, h.unused _ le_rfl, by rw [hvalue]; exact hsound⟩

/-! ## Registering -/

theorem put_self (ho : w.snapshots a = some o) : w.put a o = w := by
  rw [put, ← ho, Function.update_eq_self]

/-- Where there are octets a snapshot is bound to its buffer, and where there are none there
is nothing to bind. -/
theorem rebind_at {old : Option ℕ} {octets : Bytes} {vs : List ContractStateEntry} {n : ℕ}
    (ho : w.snapshots a = some o) (hhome : o.state.home = a)
    (hcapacities : o.state.entryCapacity = contractStateMaxContracts ∧
      o.state.voteCapacity = contractStateMaxVotes)
    (hcount : o.state.entryCount = o.entries.length) (hn : octets.length = n)
    (hblock : octets ≠ [] → ∃ block rest, o.draftBytes = some block ∧
      w.memory.blocks block = some (octets ++ rest))
    (hlength : octets.length ≤ o.draftBytesLength)
    (h : List.Forall₂ (EntryRecord.At old octets) o.entries vs) :
    ∃ entries, (if n ≠ 0 then w.bind a old else (true, w)) = (true, w.put a { o with entries }) ∧
      entries.length = o.entries.length ∧
      List.Forall₂ (EntryRecord.At o.draftBytes octets) entries vs := by
  by_cases hzero : n = 0
  · have hnil : octets = [] := List.length_eq_zero_iff.mp (hn.trans hzero)
    obtain ⟨hentries, hvs⟩ := nil_of_at hnil h
    refine ⟨o.entries, ?_, rfl, ?_⟩
    · rw [if_neg (not_not.mpr hzero), put_self ho]
    · rw [hentries, hvs]
      exact .nil
  · have hsome : octets ≠ [] := by
      intro hnil
      rw [hnil] at hn
      exact hzero hn.symm
    obtain ⟨block, rest, hdrafts, hheld⟩ := hblock hsome
    obtain ⟨entries, hbound, hentries⟩ := bind_at ho hcount hdrafts hheld hlength h
    refine ⟨entries, ?_, ?_, hentries⟩
    · rw [if_pos hzero, hbound]
      have hstate : { o.state with
          home := a
          entryCapacity := contractStateMaxContracts
          voteCapacity := contractStateMaxVotes } = o.state := by
        rw [← hcapacities.1, ← hcapacities.2, ← hhome]
      rw [hstate]
    · rw [hentries.length_eq, h.length_eq]

/-- A snapshot moves to the buffer that was allocated last, and its old one is freed. -/
theorem Sound.moved (h : w.Sound values) (ho : w.snapshots a = some o) {m : Memory UInt8}
    (hm : m.Fresh)
    (hkept : ∀ block, block ≠ w.memory.next → m.blocks block = w.memory.blocks block)
    (hdrafts : o'.draftBytes = some w.memory.next) (hs' : o'.Represents m a s') :
    SnapshotWorld.Sound (SnapshotWorld.put { w with memory := m.release o.draftBytes } a o')
      (Function.update values a (some s')) := by
  refine h.update rfl (hm.release _) le_rfl (h.lt_next ho) ?_ ?_
  · intro b p block hb hp hblock
    have hne := h.block_ne_next hp hblock
    have hfreed : o.draftBytes ≠ some block := by
      intro hsame
      exact hb (h.separate b a p o block hp ho hblock hsame)
    refine ⟨(Memory.blocks_release hfreed).trans (hkept block hne), ?_⟩
    rw [hdrafts]
    intro hsame
    exact hne (Option.some.inj hsame).symm
  · apply hs'.of_blocks
    intro block hblock
    apply Memory.blocks_release
    intro hsame
    rw [hdrafts] at hblock
    exact h.block_ne_next ho hsame (Option.some.inj hblock).symm

/-- A snapshot keeps its buffer, and the buffer that was allocated last is freed. -/
theorem Sound.kept (h : w.Sound values) (ho : w.snapshots a = some o) {m : Memory UInt8}
    (hm : m.Fresh)
    (hkept : ∀ block, block ≠ w.memory.next → m.blocks block = w.memory.blocks block)
    (hdrafts : o'.draftBytes = o.draftBytes) (hs' : o'.Represents m a s') :
    SnapshotWorld.Sound (SnapshotWorld.put { w with memory := m.free w.memory.next } a o')
      (Function.update values a (some s')) := by
  refine h.update rfl (hm.free _) le_rfl (h.lt_next ho) ?_ ?_
  · intro b p block hb hp hblock
    have hne := h.block_ne_next hp hblock
    refine ⟨(Memory.blocks_free hne).trans (hkept block hne), ?_⟩
    rw [hdrafts]
    intro hsame
    exact hb (h.separate b a p o block hp ho hblock hsame)
  · apply hs'.of_blocks
    intro block hblock
    rw [hdrafts] at hblock
    exact Memory.blocks_free (h.block_ne_next ho hblock)

variable [Primitives]

/-- A call on a snapshot fails and leaves the content of every snapshot, or it does to the
content of its own what an operation does by value. -/
def Performs {ε β : Type} (values : ℕ → Option ContractSnapshot) (a : ℕ)
    (operation : ContractSnapshot → Except ε ContractSnapshot)
    (r : Except ε β × SnapshotWorld) : Prop :=
  (∃ status, r.1 = .error status ∧ r.2.Sound values) ∨
    ∃ s s' result, values a = some s ∧ operation s = .ok s' ∧ r.1 = .ok result ∧
      r.2.Sound (Function.update values a (some s'))

omit [Primitives] in
theorem Performs.refused {ε β : Type} {operation : ContractSnapshot → Except ε ContractSnapshot}
    (h : w.Sound values) (status : ε) :
    Performs values a operation ((.error status, w) : Except ε β × SnapshotWorld) :=
  .inl ⟨status, rfl, h⟩

/-- A registration by value. -/
def registerValue (canonicalDraft : Bytes) (s : ContractSnapshot) :
    Except ContractStatus ContractSnapshot :=
  (contractSnapshotRegister s canonicalDraft).map Prod.fst

theorem snapshotRegister_performs (h : w.Sound values) (a : ℕ) (canonicalDraft : Bytes)
    (allocates : Bool) :
    Performs values a (registerValue canonicalDraft)
      (w.snapshotRegister a canonicalDraft allocates) := by
  rw [snapshotRegister]
  cases ho : w.snapshots a with
  | none => exact Performs.refused h _
  | some o =>
  obtain ⟨s, hvalue, hs⟩ := h.represents a o ho
  obtain ⟨octets, hholds, hsize, hentries⟩ := hs.entries
  dsimp only
  by_cases hlong : canonicalDraft.length > contractMaxSize
  · rw [if_pos hlong]
    exact Performs.refused h _
  rw [if_neg hlong]
  by_cases hfull : allocates = false
  · rw [if_pos hfull]
    exact Performs.refused h _
  rw [if_neg hfull, draftOctets_eq hholds hsize]
  have hm : (w.memory.allocate (octets ++ canonicalDraft)).2.Fresh := h.fresh.allocate _
  have hgrown := Memory.blocks_allocate_next w.memory (octets ++ canonicalDraft)
  have hkept (block : ℕ) (hblock : block ≠ w.memory.next) :=
    Memory.blocks_allocate hblock (octets ++ canonicalDraft)
  rw [show w.memory.allocate (octets ++ canonicalDraft) =
    (w.memory.next, (w.memory.allocate (octets ++ canonicalDraft)).2) from rfl]
  generalize (w.memory.allocate (octets ++ canonicalDraft)).2 = m at hm hgrown hkept
  dsimp only
  rw [show SnapshotWorld.setDrafts { w with memory := m } a (some w.memory.next)
    (o.draftBytesLength + canonicalDraft.length) = _ from
    modify_eq (w := { w with memory := m }) ho _]
  obtain ⟨entries, hbound, hcount, hmoved⟩ := rebind_at
    (snapshots_put_self { w with memory := m } a { o with
      draftBytes := some w.memory.next
      draftBytesLength := o.draftBytesLength + canonicalDraft.length })
    hs.home hs.capacities hs.count hsize
    (fun _ => ⟨w.memory.next, canonicalDraft, rfl, hgrown⟩)
    (by simp only [hsize]; omega) hentries
  rw [hbound, put_put]
  obtain ⟨grown, hrecord⟩ : ∃ grown, grown = ({ o with
      draftBytes := some w.memory.next
      draftBytesLength := o.draftBytesLength + canonicalDraft.length
      entries } : SnapshotRecord) := ⟨_, rfl⟩
  rw [← hrecord]
  have hrep : grown.Represents m a s := by
    rw [hrecord]
    refine { hs with
      count := hs.count.trans hcount.symm
      entries := ⟨octets ++ canonicalDraft, hgrown, ?_, hmoved.imp fun _ _ he => he.append⟩ }
    rw [List.length_append, hsize]
  have hheld : BufferHolds m o.draftBytes octets :=
    hholds.of_blocks fun block hblock => hkept block (h.block_ne_next ho hblock)
  have hregister := stateRegister_represents (w := SnapshotWorld.put { w with memory := m } a grown)
    ⟨w.memory.next, o.draftBytesLength⟩ canonicalDraft.length
    (snapshots_put_self ..) hrep
    (by rw [hrecord]) hgrown
    (by rw [List.length_append, hsize])
    (by rw [List.drop_left' hsize, List.take_length])
  rw [if_neg Bool.noConfusion]
  cases hpure : contractStateRegister s.state canonicalDraft with
  | error status =>
      rw [hpure] at hregister
      left
      rw [hregister]
      dsimp only
      rw [show SnapshotWorld.setDrafts (SnapshotWorld.put { w with memory := m } a grown) a
        o.draftBytes o.draftBytesLength = _ from modify_eq (snapshots_put_self ..) _, put_put]
      obtain ⟨back, hback, hcount', hmoved'⟩ := rebind_at
        (snapshots_put_self { w with memory := m } a { grown with
          draftBytes := o.draftBytes
          draftBytesLength := o.draftBytesLength })
        hrep.home hrep.capacities hrep.count hsize hheld.block hsize.le
        (by rw [hrecord]; exact hmoved)
      have hreturned := congrArg Prod.snd hback
      rw [apply_ite Prod.snd, put_put] at hreturned
      rw [hreturned]
      refine ⟨status, rfl, ?_⟩
      have hsound : SnapshotWorld.Sound (SnapshotWorld.put
          { w with memory := m.free w.memory.next } a { grown with
            draftBytes := o.draftBytes
            draftBytesLength := o.draftBytesLength
            entries := back }) (Function.update values a (some s)) :=
        h.kept ho hm hkept rfl { hrep with
          count := hrep.count.trans hcount'.symm
          entries := ⟨octets, hheld, hsize, hmoved'⟩ }
      rw [← hvalue, Function.update_eq_self] at hsound
      exact hsound
  | ok r =>
      obtain ⟨state, index⟩ := r
      rw [hpure] at hregister
      obtain ⟨o', hregistered, hs', hdrafts', -⟩ := hregister
      right
      refine ⟨s, ⟨state⟩, index, hvalue, ?_, ?_⟩
      · simp only [registerValue, contractSnapshotRegister, if_neg hlong, hs.bind_eq, hpure,
          Except.map]
      rw [hregistered, put_put]
      rw [hrecord] at hdrafts'
      exact ⟨rfl, h.moved ho hm hkept hdrafts' hs'⟩

/-! ## Voting -/

/-- A vote by value. -/
def voteValue (index : ℕ) (canonicalCurrent : Bytes) (sequence : UInt64) (actor : Octets 32)
    (s : ContractSnapshot) : Except ContractStatus ContractSnapshot :=
  (contractStateApplyVote s.state index canonicalCurrent sequence actor).map ContractSnapshot.mk

theorem stateApplyVote_performs (h : w.Sound values) (a index : ℕ) (canonicalCurrent : Bytes)
    (p : Pointer) (sequence : UInt64) (actor : Octets 32) :
    Performs values a (voteValue index canonicalCurrent sequence actor)
      (w.stateApplyVote a index canonicalCurrent p sequence actor) := by
  cases ho : w.snapshots a with
  | none =>
      rw [stateApplyVote, ho]
      exact Performs.refused h _
  | some o =>
  obtain ⟨s, hvalue, hs⟩ := h.represents a o ho
  have hvote := stateApplyVote_represents ho hs index canonicalCurrent p sequence actor
  cases hpure : contractStateApplyVote s.state index canonicalCurrent sequence actor with
  | error status =>
      rw [hpure] at hvote
      rw [hvote]
      exact Performs.refused h _
  | ok state =>
      rw [hpure] at hvote
      obtain ⟨o', hvoted, hs', hdrafts, -⟩ := hvote
      rw [hvoted]
      refine .inr ⟨s, ⟨state⟩, (), hvalue, ?_, rfl, h.put ho hdrafts hs'⟩
      rw [voteValue, hpure, Except.map]

/-! ## Actions -/

/-- The `CREATE` branch of `contract_apply_transaction`, over a snapshot in memory. -/
def applyCreate (w : SnapshotWorld) (a : ℕ) (lifecycle : LifecycleState)
    (action : ContractTransaction) (provider : HashProvider) (allocates : Bool) :
    Except DataStatus Unit × SnapshotWorld :=
  match draftView action.canonicalContract with
  | .error _ => (.error .content, w)
  | .ok _ =>
      match contractAuthorized lifecycle action action.canonicalContract provider with
      | .error status => (.error status, w)
      | .ok () =>
          match w.snapshotRegister a action.canonicalContract allocates with
          | (.error status, w) => (.error (contractFailure status), w)
          | (.ok index, w) =>
              match w.snapshots a with
              | none => (.error .argument, w)
              | some o =>
                  match (w.storeEntries o.state).bind (·[index]?) with
                  | none => (.error .argument, w)
                  | some entry =>
                      match viewApplyAction entry.current action.action action.sequence with
                      | .error _ => (.error .content, w)
                      | .ok next => (.ok (), w.writeEntry o.state index
                          { entry with current := keepViews entry next })

/-- Whether a contract descends from the draft an entry points to. -/
def descends (m : Memory UInt8) (canonical : Bytes) (entry : EntryRecord) : Bool :=
  match m.read entry.canonicalDraft entry.canonicalDraftLength with
  | none => false
  | some canonicalDraft => contractLineageValidate canonicalDraft canonical = .ok ()

/-- `contract_apply_transaction`, over a snapshot in memory; the octets of the action's
contract are at `p`, in the block. -/
def applyTransactionAt (w : SnapshotWorld) (a : ℕ) (lifecycle : LifecycleState)
    (tx : Transaction) (provider : HashProvider) (p : Pointer) (allocates : Bool) :
    Except DataStatus Unit × SnapshotWorld :=
  match contractTransactionDecode tx.record with
  | .error _ => (.error .content, w)
  | .ok action =>
      if action.action = .create then w.applyCreate a lifecycle action provider allocates
      else
        match w.snapshots a with
        | none => (.error .argument, w)
        | some o =>
            match w.storeEntries o.state with
            | none => (.error .argument, w)
            | some entries =>
                match entries.findIdx? (descends w.memory action.canonicalContract) with
                | none => (.error .content, w)
                | some index =>
                    match entries[index]? with
                    | none => (.error .content, w)
                    | some entry =>
                        match contractDecode action.canonicalContract,
                          w.memory.read entry.canonicalDraft entry.canonicalDraftLength with
                        | .ok decoded, some canonicalDraft =>
                            let current := contractViewAt p decoded
                            if current.sequence ≠ entry.current.sequence ∨
                                current.state ≠ entry.current.state then (.error .content, w)
                            else
                              match contractAuthorized lifecycle action canonicalDraft provider
                              with
                              | .error status => (.error status, w)
                              | .ok () =>
                                  if action.action = .approve then
                                    match w.stateApplyVote a index action.canonicalContract p
                                        action.sequence action.actor with
                                    | (.error status, w) => (.error (contractFailure status), w)
                                    | (.ok (), w) => (.ok (), w)
                                  else
                                    match viewApplyAction current action.action action.sequence
                                    with
                                    | .error _ => (.error .content, w)
                                    | .ok next => (.ok (), w.writeEntry o.state index
                                        { entry with current := keepViews entry next })
                        | _, _ => (.error .content, w)

/-- An action by value. -/
def actionValue (lifecycle : LifecycleState) (tx : Transaction) (provider : HashProvider)
    (s : ContractSnapshot) : Except DataStatus ContractSnapshot :=
  contractApplyTransaction s lifecycle tx provider

omit [Primitives] in
/-- Storing a contract of the entry's lineage in a sound entry. -/
theorem writeEntry_sound (h : w.Sound values) (ho : w.snapshots a = some o)
    (hs : o.Represents w.memory a s) {octets : Bytes}
    (hholds : BufferHolds w.memory o.draftBytes octets) (hsize : octets.length = o.draftBytesLength)
    (hentries : List.Forall₂ (EntryRecord.At o.draftBytes octets) o.entries s.state.entries)
    {index : ℕ} {e : EntryRecord} {v : ContractStateEntry} (he : o.entries[index]? = some e)
    (hat : e.At o.draftBytes octets v) {draft next : Contract}
    (hdraft : contractDecode v.canonicalDraft = .ok draft)
    (hnext : next = draft.moveTo next.sequence next.state) (p : Pointer) :
    (w.writeEntry o.state index { e with current := keepViews e (contractViewAt p next) }).Sound
      (Function.update values a (some ⟨setCurrent s.state index v next⟩)) := by
  have hkept := keepViews_at hat hdraft hnext p v.voteCount
  have hwritten : w.writeEntry o.state index
      { e with current := keepViews e (contractViewAt p next) } =
      w.put a { o with
        entries := o.entries.set index {
          e with current := keepViews e (contractViewAt p next), voteCount := v.voteCount } } := by
    rw [writeEntry, hs.home, modify_eq ho, Buffer.overwrite_one (List.getElem?_eq_some_iff.mp he).1,
      ← hat.voteCount]
  rw [hwritten]
  refine h.put ho rfl ?_
  exact { hs with
    count := by rw [List.length_set]; exact hs.count
    entries := ⟨octets, hholds, hsize, Entrywise.set hentries index hkept⟩ }

omit [Primitives] in
theorem lineage_of_findIdx? {entries : List ContractStateEntry} {canonical : Bytes} {index : ℕ}
    {v : ContractStateEntry} (hindex : (entries.findIdx? fun entry =>
      contractLineageValidate entry.canonicalDraft canonical = .ok ()) = some index)
    (hv : entries[index]? = some v) :
    contractLineageValidate v.canonicalDraft canonical = .ok () := by
  obtain ⟨hlt, hfound, -⟩ := List.findIdx?_eq_some_iff_getElem.mp hindex
  obtain ⟨-, rfl⟩ := List.getElem?_eq_some_iff.mp hv
  exact of_decide_eq_true hfound

theorem applyTransactionAt_performs (h : w.Sound values) (a : ℕ) (lifecycle : LifecycleState)
    (tx : Transaction) (provider : HashProvider) (p : Pointer) (allocates : Bool) :
    Performs values a (actionValue lifecycle tx provider)
      (w.applyTransactionAt a lifecycle tx provider p allocates) := by
  rw [applyTransactionAt]
  cases hdecode : contractTransactionDecode tx.record with
  | error status => exact Performs.refused h _
  | ok action =>
  dsimp only
  by_cases hcreate : action.action = .create
  · rw [if_pos hcreate, applyCreate]
    cases draftView action.canonicalContract with
    | error status => exact Performs.refused h _
    | ok draft =>
        dsimp only
        rw [contractAuthorized_none lifecycle _ provider (evidence_of_create hdecode hcreate)]
        exact Performs.refused h _
  rw [if_neg hcreate]
  cases ho : w.snapshots a with
  | none => exact Performs.refused h _
  | some o =>
  obtain ⟨s, hvalue, hs⟩ := h.represents a o ho
  obtain ⟨octets, hholds, hsize, hentries⟩ := hs.entries
  have hscan : o.entries.findIdx? (descends w.memory action.canonicalContract) =
      s.state.entries.findIdx? fun entry =>
        contractLineageValidate entry.canonicalDraft action.canonicalContract = .ok () := by
    apply Entrywise.findIdx?_eq hentries
    intro e v hat
    rw [descends, hat.read_held hholds]
  dsimp only
  rw [storeEntries_eq ho hs]
  dsimp only
  rw [hscan]
  cases hindex : s.state.entries.findIdx? fun entry =>
      contractLineageValidate entry.canonicalDraft action.canonicalContract = .ok () with
  | none => exact Performs.refused h _
  | some index =>
  dsimp only
  obtain ⟨hnone, -⟩ | ⟨e, v, he, hv, hat⟩ := Entrywise.getElem?_cases hentries index
  · rw [hnone]
    exact Performs.refused h _
  rw [he]
  dsimp only
  rw [hat.read_held hholds]
  cases hdecoded : contractDecode action.canonicalContract with
  | error status => exact Performs.refused h _
  | ok decoded =>
  obtain ⟨d, -, -, hview⟩ := hat.current
  have hsequence : e.current.sequence = v.current.sequence := by rw [hview]; rfl
  have hstate : e.current.state = v.current.state := by rw [hview]; rfl
  have hview' : (contractViewAt p decoded).sequence = decoded.sequence ∧
      (contractViewAt p decoded).state = decoded.state := ⟨rfl, rfl⟩
  simp only [hsequence, hstate, hview']
  by_cases hother : decoded.sequence ≠ v.current.sequence ∨ decoded.state ≠ v.current.state
  · rw [if_pos hother]
    exact Performs.refused h _
  rw [if_neg hother]
  cases hauthorized : contractAuthorized lifecycle action v.canonicalDraft provider with
  | error status => exact Performs.refused h _
  | ok _ =>
  dsimp only
  have hentry : lineageEntry s.state action.canonicalContract = some (index, v) := by
    rw [lineageEntry, hindex]
    dsimp only
    rw [hv, Option.map_some]
  by_cases hvote : action.action = .approve
  · rw [if_pos hvote]
    have hvoted := stateApplyVote_represents ho hs index action.canonicalContract p
      action.sequence action.actor
    cases hpure : contractStateApplyVote s.state index action.canonicalContract action.sequence
        action.actor with
    | error status =>
        rw [hpure] at hvoted
        rw [hvoted]
        exact Performs.refused h _
    | ok state =>
        rw [hpure] at hvoted
        obtain ⟨o', hwritten, hs', hdrafts, -⟩ := hvoted
        rw [hwritten]
        refine .inr ⟨s, ⟨state⟩, (), hvalue, ?_, rfl, h.put ho hdrafts hs'⟩
        rw [actionValue, contractApplyTransaction, hdecode]
        simp only [if_neg hcreate, hentry, hdecoded, if_neg hother, hauthorized, if_pos hvote,
          hpure]
  rw [if_neg hvote, viewApplyAction_at]
  cases hacted : contractApplyAction decoded action.action action.sequence with
  | error status => exact Performs.refused h _
  | ok next =>
  obtain ⟨draft, current, hdraft, hcurrent, hlike⟩ := contractLineageValidate_eq_ok_iff.mp
    (lineage_of_findIdx? hindex hv)
  obtain rfl := Except.ok.inj (hdecoded.symm.trans hcurrent)
  have hnext : next = draft.moveTo next.sequence next.state := by
    rw [contractApplyAction_moveTo hacted, hlike]
    rfl
  refine .inr ⟨s, ⟨setCurrent s.state index v next⟩, (), hvalue, ?_, rfl, ?_⟩
  · rw [actionValue, contractApplyTransaction, hdecode]
    simp only [if_neg hcreate, hentry, hdecoded, if_neg hother, hauthorized, if_neg hvote, hacted]
  · exact writeEntry_sound h ho hs hholds hsize hentries he hat (draftView_eq_ok_iff.mp hdraft).1
      hnext p

/-- The contract an action on an entry starts from; octets of a caller are at `p`. -/
def viewSource (m : Memory UInt8) (entry : EntryRecord) (p : Pointer) :
    Option Bytes → Except ContractStatus ContractView
  | none => .ok entry.current
  | some canonicalCurrent =>
      match m.read entry.canonicalDraft entry.canonicalDraftLength with
      | none => .error .argument
      | some canonicalDraft =>
          match contractLineageValidate canonicalDraft canonicalCurrent with
          | .error status => .error status
          | .ok () =>
              match contractDecode canonicalCurrent with
              | .error status => .error status
              | .ok current =>
                  if current.sequence ≠ entry.current.sequence ∨
                      current.state ≠ entry.current.state then .error .state
                  else .ok (contractViewAt p current)

/-- The ends of `contract_apply_transaction`: an action other than a vote is applied to an
entry, which keeps its own spans. -/
def storeApplyAction (w : SnapshotWorld) (a index : ℕ) (canonicalCurrent : Option Bytes)
    (p : Pointer) (action : ContractAction) (sequence : UInt64) :
    Except ContractStatus Unit × SnapshotWorld :=
  if action = .approve then (.error .action, w)
  else
    match w.snapshots a with
    | none => (.error .argument, w)
    | some o =>
        match (w.storeEntries o.state).bind (·[index]?) with
        | none => (.error .argument, w)
        | some entry =>
            match viewSource w.memory entry p canonicalCurrent with
            | .error status => (.error status, w)
            | .ok current =>
                match viewApplyAction current action sequence with
                | .error status => (.error status, w)
                | .ok next => (.ok (), w.writeEntry o.state index
                    { entry with current := keepViews entry next })

/-- Such an action by value. -/
def storeActionValue (index : ℕ) (canonicalCurrent : Option Bytes) (action : ContractAction)
    (sequence : UInt64) (s : ContractSnapshot) : Except ContractStatus ContractSnapshot :=
  (contractPerform s.state (.act index canonicalCurrent action sequence)).map ContractSnapshot.mk

omit [Primitives] in
/-- An action starts from the contract it starts from by value, wherever that is held. -/
theorem viewSource_at {m : Memory UInt8} {drafts : Option ℕ} {octets : Bytes} {e : EntryRecord}
    {v : ContractStateEntry} (hat : e.At drafts octets v)
    (hread : m.read e.canonicalDraft e.canonicalDraftLength = some v.canonicalDraft)
    (p : Pointer) (canonicalCurrent : Option Bytes) :
    ∃ q, viewSource m e p canonicalCurrent =
      (contractSource v canonicalCurrent).map (contractViewAt q) := by
  obtain ⟨d, -, -, hview⟩ := hat.current
  cases canonicalCurrent with
  | none => exact ⟨e.canonicalDraft, congrArg Except.ok hview⟩
  | some canonicalCurrent =>
      have hsequence : e.current.sequence = v.current.sequence := by rw [hview]; rfl
      have hstate : e.current.state = v.current.state := by rw [hview]; rfl
      refine ⟨p, ?_⟩
      simp only [viewSource, contractSource, hread, hsequence, hstate]
      cases contractLineageValidate v.canonicalDraft canonicalCurrent with
      | error status => rfl
      | ok _ =>
          cases contractDecode canonicalCurrent with
          | error status => rfl
          | ok current =>
              dsimp only
              split <;> rfl

omit [Primitives] in
theorem contractSource_moveTo {drafts : Option ℕ} {octets : Bytes} {e : EntryRecord}
    {v : ContractStateEntry} (hat : e.At drafts octets v) {canonicalCurrent : Option Bytes}
    {current : Contract} (h : contractSource v canonicalCurrent = .ok current) :
    ∃ draft, contractDecode v.canonicalDraft = .ok draft ∧
      current = draft.moveTo current.sequence current.state := by
  cases canonicalCurrent with
  | none =>
      obtain ⟨d, hdecode, hmoved, -⟩ := hat.current
      rw [← Except.ok.inj h]
      exact ⟨d, hdecode, hmoved⟩
  | some canonicalCurrent =>
      simp only [contractSource] at h
      split at h
      · cases h
      next hlineage =>
      split at h
      · cases h
      next decoded hdecoded =>
      split at h
      · cases h
      obtain ⟨draft, decoded', hdraft, hdecoded', hlike⟩ :=
        contractLineageValidate_eq_ok_iff.mp hlineage
      obtain rfl := Except.ok.inj (hdecoded.symm.trans hdecoded')
      rw [← Except.ok.inj h]
      exact ⟨draft, (draftView_eq_ok_iff.mp hdraft).1, hlike⟩

theorem storeApplyAction_performs (h : w.Sound values) (a index : ℕ)
    (canonicalCurrent : Option Bytes) (p : Pointer) (action : ContractAction)
    (sequence : UInt64) :
    Performs values a (storeActionValue index canonicalCurrent action sequence)
      (w.storeApplyAction a index canonicalCurrent p action sequence) := by
  rw [storeApplyAction]
  by_cases hvote : action = .approve
  · rw [if_pos hvote]
    exact Performs.refused h _
  rw [if_neg hvote]
  cases ho : w.snapshots a with
  | none => exact Performs.refused h _
  | some o =>
  obtain ⟨s, hvalue, hs⟩ := h.represents a o ho
  obtain ⟨octets, hholds, hsize, hentries⟩ := hs.entries
  dsimp only
  rw [storeEntries_eq ho hs, Option.bind_some]
  obtain ⟨hnone, -⟩ | ⟨e, v, he, hv, hat⟩ := Entrywise.getElem?_cases hentries index
  · rw [hnone]
    exact Performs.refused h _
  rw [he]
  obtain ⟨q, hsource⟩ := viewSource_at hat (hat.read_held hholds) p canonicalCurrent
  dsimp only
  rw [hsource]
  cases hfrom : contractSource v canonicalCurrent with
  | error status => exact Performs.refused h _
  | ok current =>
  simp only [Except.map]
  rw [viewApplyAction_at]
  cases hacted : contractApplyAction current action sequence with
  | error status => exact Performs.refused h _
  | ok next =>
  obtain ⟨draft, hdraft, hlike⟩ := contractSource_moveTo hat hfrom
  have hnext : next = draft.moveTo next.sequence next.state := by
    rw [contractApplyAction_moveTo hacted, hlike]
    rfl
  refine .inr ⟨s, ⟨setCurrent s.state index v next⟩, (), hvalue, ?_, rfl, ?_⟩
  · rw [storeActionValue, contractPerform, if_neg hvote, hv]
    simp only [hfrom, hacted, Except.map]
  · exact writeEntry_sound h ho hs hholds hsize hentries he hat hdraft hnext q

end SnapshotWorld

end StnChain
