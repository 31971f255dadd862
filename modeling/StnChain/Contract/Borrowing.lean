import StnChain.Contract.Snapshots
import StnChain.Support.Entrywise

/-!
# What snapshots borrow

An entry is sound when its draft, its packed participants and its terms lie in the draft
buffer of its own snapshot and read back as what was registered.  Binding moves sound
entries to a copy of their buffer, so the operations on a snapshot in memory compute what
the operations on contracts by value compute.
-/

namespace StnChain

open Allocations

/-! ## Sound entries -/

/-- The draft buffer holds some octets; there is no buffer while there are none. -/
def BufferHolds (m : Memory UInt8) : Option ℕ → Bytes → Prop
  | none, octets => octets = []
  | some block, octets => m.blocks block = some octets

/-- An entry borrows from a buffer with some octets, and reads as an entry by value: its
current contract is the draft it points to, at a sequence and in a state. -/
structure EntryRecord.At (draftBytes : Option ℕ) (octets : Bytes) (e : EntryRecord)
    (v : ContractStateEntry) : Prop where
  block : draftBytes = some e.canonicalDraft.block
  within : e.canonicalDraft.offset + e.canonicalDraftLength ≤ octets.length
  draft : v.canonicalDraft = (octets.drop e.canonicalDraft.offset).take e.canonicalDraftLength
  current : ∃ d, contractDecode v.canonicalDraft = .ok d ∧
    v.current = d.moveTo v.current.sequence v.current.state ∧
    e.current = contractViewAt e.canonicalDraft v.current
  contractId : e.contractId = v.contractId
  voteOffset : e.voteOffset = v.voteOffset
  voteCount : e.voteCount = v.voteCount
  eligibleCount : e.eligibleCount = v.eligibleCount
  requiredCount : e.requiredCount = v.requiredCount

/-- A snapshot in memory at an address, and by value. -/
structure SnapshotRecord.Represents (m : Memory UInt8) (a : ℕ) (o : SnapshotRecord)
    (s : ContractSnapshot) : Prop where
  references : o.references ≠ 0
  home : o.state.home = a
  count : o.state.entryCount = o.entries.length
  capacities : o.state.entryCapacity = contractStateMaxContracts ∧
    o.state.voteCapacity = contractStateMaxVotes
  capacities' : s.state.entryCapacity = contractStateMaxContracts ∧
    s.state.voteCapacity = contractStateMaxVotes
  voteCount : o.state.voteCount = s.state.voteCount
  votes : o.votes = s.state.votes
  entries : ∃ octets, BufferHolds m o.draftBytes octets ∧ octets.length = o.draftBytesLength ∧
    List.Forall₂ (EntryRecord.At o.draftBytes octets) o.entries s.state.entries

section Entries

variable {m : Memory UInt8} {drafts : Option ℕ} {octets rest : Bytes} {e : EntryRecord}
  {v : ContractStateEntry} {es : List EntryRecord} {vs : List ContractStateEntry}

theorem EntryRecord.At.append (h : e.At drafts octets v) : e.At drafts (octets ++ rest) v := by
  have hwithin := h.within
  refine { h with within := ?_, draft := ?_ }
  · rw [List.length_append]
    omega
  · rw [h.draft, List.drop_append_of_le_length (by omega), List.take_append_of_le_length]
    rw [List.length_drop]
    omega

theorem EntryRecord.At.octets_ne_nil (h : e.At drafts octets v) : octets ≠ [] := by
  intro hnil
  obtain ⟨d, hdecode, -, -⟩ := h.current
  rw [h.draft, hnil] at hdecode
  simp [contractDecode, contractHeaderSize] at hdecode

/-- Where there are no octets there are no entries. -/
theorem nil_of_at (hoctets : octets = []) (h : List.Forall₂ (EntryRecord.At drafts octets) es vs) :
    es = [] ∧ vs = [] := by
  cases h with
  | nil => exact ⟨rfl, rfl⟩
  | cons he _ => exact absurd hoctets he.octets_ne_nil

/-- The draft is read from any block that starts with the octets. -/
theorem EntryRecord.At.read (h : e.At drafts octets v) {block : ℕ}
    (hblock : m.blocks block = some (octets ++ rest)) :
    m.read ⟨block, e.canonicalDraft.offset⟩ e.canonicalDraftLength = some v.canonicalDraft := by
  have h' : e.At drafts (octets ++ rest) v := h.append
  rw [h'.draft]
  exact Memory.read_of_blocks (p := ⟨block, e.canonicalDraft.offset⟩) hblock h'.within

theorem contractId_of_at (h : List.Forall₂ (EntryRecord.At drafts octets) es vs) :
    es.map EntryRecord.contractId = vs.map ContractStateEntry.contractId := by
  induction h with
  | nil => rfl
  | cons he _ ih => rw [List.map_cons, List.map_cons, he.contractId, ih]

/-! ## Binding -/

/-- A sound entry is bound to a copy of its buffer. -/
theorem bindEntry_at (h : e.At drafts octets v) {block length : ℕ}
    (hblock : m.blocks block = some (octets ++ rest)) (hlength : octets.length ≤ length) :
    ∃ e', SnapshotWorld.bindEntry m (some block) length drafts e = (true, e') ∧
      e'.At (some block) octets v := by
  have hwithin := h.within
  obtain ⟨d, hdecode, hmoved, hview⟩ := h.current
  have hat : contractDecodeAt m ⟨block, e.canonicalDraft.offset⟩ e.canonicalDraftLength =
      .ok (contractViewAt ⟨block, e.canonicalDraft.offset⟩ d) := by
    rw [contractDecodeAt, h.read hblock]
    simp only [hdecode]
  have hinside : ¬(drafts ≠ some e.canonicalDraft.block ∨ e.canonicalDraft.offset > length) := by
    rw [not_or, not_not]
    exact ⟨h.block, by omega⟩
  simp only [SnapshotWorld.bindEntry, if_neg hinside]
  rw [if_neg (by omega), hat]
  refine ⟨_, rfl, ?_⟩
  refine { h with block := rfl, current := ⟨d, hdecode, hmoved, ?_⟩ }
  rw [hview, hmoved]
  rfl

theorem bindEntries_at (h : List.Forall₂ (EntryRecord.At drafts octets) es vs)
    {block length : ℕ} (hblock : m.blocks block = some (octets ++ rest))
    (hlength : octets.length ≤ length) :
    ∃ es', SnapshotWorld.bindEntries m (some block) length drafts es = (true, es') ∧
      List.Forall₂ (EntryRecord.At (some block) octets) es' vs := by
  induction h with
  | nil => exact ⟨[], rfl, .nil⟩
  | cons he _ ih =>
      obtain ⟨e', hbound, he'⟩ := bindEntry_at he hblock hlength
      obtain ⟨es', hrest, hes'⟩ := ih
      refine ⟨e' :: es', ?_, .cons he' hes'⟩
      simp only [SnapshotWorld.bindEntries, hbound, hrest]

/-- A snapshot whose entries borrow from another buffer is bound to its own one. -/
theorem bind_at {w : SnapshotWorld} {a block : ℕ} {o : SnapshotRecord}
    (ho : w.snapshots a = some o) (hcount : o.state.entryCount = o.entries.length)
    (hdrafts : o.draftBytes = some block) (hblock : w.memory.blocks block = some (octets ++ rest))
    (hlength : octets.length ≤ o.draftBytesLength)
    (h : List.Forall₂ (EntryRecord.At drafts octets) o.entries vs) :
    ∃ entries, w.bind a drafts = (true, w.put a { o with
        state := { o.state with
          home := a
          entryCapacity := contractStateMaxContracts
          voteCapacity := contractStateMaxVotes }
        entries }) ∧
      List.Forall₂ (EntryRecord.At o.draftBytes octets) entries vs := by
  obtain ⟨entries, hbound, hentries⟩ := bindEntries_at h hblock hlength
  refine ⟨entries, ?_, by rw [hdrafts]; exact hentries⟩
  simp only [SnapshotWorld.bind, ho, hdrafts, hcount, List.take_length, hbound,
    List.drop_length, List.append_nil]

end Entries

/-- Decoding the current contracts again changes nothing by value. -/
theorem SnapshotRecord.Represents.bind_eq {m : Memory UInt8} {a : ℕ} {o : SnapshotRecord}
    {s : ContractSnapshot} (h : o.Represents m a s) : contractSnapshotBind s = some s := by
  obtain ⟨octets, -, -, hentries⟩ := h.entries
  rw [contractSnapshotBind, Entrywise.mapM_eq_self]
  · show some (⟨{ s.state with
      entryCapacity := contractStateMaxContracts
      voteCapacity := contractStateMaxVotes }⟩ : ContractSnapshot) = some s
    rw [← h.capacities'.1, ← h.capacities'.2]
  · intro v hv
    obtain ⟨e, he⟩ := Entrywise.exists_of_mem hentries hv
    obtain ⟨d, hdecode, hmoved, -⟩ := he.current
    rw [hdecode]
    show some { v with current := d.moveTo v.current.sequence v.current.state } = some v
    rw [← hmoved]

theorem BufferHolds.of_blocks {m m' : Memory UInt8} {draftBytes : Option ℕ} {octets : Bytes}
    (h : BufferHolds m draftBytes octets)
    (hsame : ∀ block, draftBytes = some block → m'.blocks block = m.blocks block) :
    BufferHolds m' draftBytes octets := by
  cases draftBytes with
  | none => exact h
  | some block => exact (hsame block rfl).trans h

theorem BufferHolds.block {m : Memory UInt8} {draftBytes : Option ℕ} {octets : Bytes}
    (h : BufferHolds m draftBytes octets) (hoctets : octets ≠ []) :
    ∃ block rest, draftBytes = some block ∧ m.blocks block = some (octets ++ rest) := by
  cases draftBytes with
  | none => exact absurd h hoctets
  | some block =>
      refine ⟨block, [], rfl, ?_⟩
      rw [List.append_nil]
      exact h

theorem EntryRecord.At.read_held {m : Memory UInt8} {draftBytes : Option ℕ} {octets : Bytes}
    {e : EntryRecord} {v : ContractStateEntry} (h : e.At draftBytes octets v)
    (hholds : BufferHolds m draftBytes octets) :
    m.read e.canonicalDraft e.canonicalDraftLength = some v.canonicalDraft := by
  obtain ⟨block, rest, hdrafts, hblock⟩ := hholds.block h.octets_ne_nil
  have hpointer := h.block
  rw [hdrafts] at hpointer
  rw [Option.some.inj hpointer] at hblock
  exact h.read hblock

/-- A snapshot is read through its own buffer only. -/
theorem SnapshotRecord.Represents.of_blocks {m m' : Memory UInt8} {a : ℕ} {o : SnapshotRecord}
    {s : ContractSnapshot} (h : o.Represents m a s)
    (hsame : ∀ block, o.draftBytes = some block → m'.blocks block = m.blocks block) :
    o.Represents m' a s := by
  obtain ⟨octets, hholds, hrest⟩ := h.entries
  exact { h with entries := ⟨octets, hholds.of_blocks hsame, hrest⟩ }

theorem draftOctets_eq {m : Memory UInt8} {o : SnapshotRecord} {octets : Bytes}
    (hholds : BufferHolds m o.draftBytes octets) (hsize : octets.length = o.draftBytesLength) :
    SnapshotWorld.draftOctets m o = octets := by
  rw [SnapshotWorld.draftOctets]
  cases hdrafts : o.draftBytes with
  | none =>
      rw [hdrafts] at hholds
      exact hholds.symm
  | some block =>
      rw [hdrafts] at hholds
      have hread := Memory.read_of_blocks (p := ⟨block, 0⟩) (n := octets.length) hholds (by simp)
      rw [List.drop_zero, List.take_length] at hread
      dsimp only
      rw [← hsize, hread, Option.getD_some]

/-! ## Reading back -/

/-- What a borrowed span holds. -/
def readSpan (m : Memory UInt8) (p : Option Pointer) (length : ℕ) : Option (Option Bytes) :=
  match p with
  | none => some none
  | some p => (m.read p length).map some

/-- A contract with the spans it borrows; `none` when one of them cannot be read. -/
def ContractView.read (m : Memory UInt8) (view : ContractView) : Option Contract := do
  let participantBytes ←
    readSpan m view.participantBytes (view.participantCount * contractParticipantSize)
  let terms ← readSpan m view.terms view.termsLength
  pure {
    version := view.version
    type := view.type
    sequence := view.sequence
    createdAt := view.createdAt
    state := view.state
    participants := view.participants
    participantCount := view.participantCount
    participantBytes
    terms
    termsLength := view.termsLength }

/-- An entry with the draft it points to and the spans it borrows. -/
def EntryRecord.read (m : Memory UInt8) (e : EntryRecord) : Option ContractStateEntry := do
  let canonicalDraft ← m.read e.canonicalDraft e.canonicalDraftLength
  let current ← e.current.read m
  pure {
    contractId := e.contractId
    canonicalDraft
    current
    voteOffset := e.voteOffset
    voteCount := e.voteCount
    eligibleCount := e.eligibleCount
    requiredCount := e.requiredCount }

/-- The content of a snapshot: its store, with everything the entries borrow. -/
def SnapshotWorld.content (w : SnapshotWorld) (a : ℕ) : Option ContractSnapshot := do
  let o ← w.snapshots a
  let arrays ← w.snapshots o.state.home
  let records ← w.storeEntries o.state
  let entries ← records.mapM (EntryRecord.read w.memory)
  pure ⟨{
    entries
    entryCapacity := o.state.entryCapacity
    votes := arrays.votes
    voteCount := o.state.voteCount
    voteCapacity := o.state.voteCapacity }⟩

/-- The spans of a decoded contract. -/
theorem contractDecode_spans {input : Bytes} {d : Contract} (h : contractDecode input = .ok d) :
    input.length = contractHeaderSize + d.participantCount * contractParticipantSize +
        d.termsLength ∧
      d.participantBytes = (if d.participantCount = 0 then none else
        some (BigEndian.field input contractHeaderSize
          (d.participantCount * contractParticipantSize))) ∧
      d.terms = if d.termsLength = 0 then none else
        some (BigEndian.field input
          (contractHeaderSize + d.participantCount * contractParticipantSize) d.termsLength) := by
  simp only [contractDecode] at h
  split at h
  · cases h
  split at h
  · cases h
  split at h
  · cases h
  split at h
  · cases h
  split at h
  · cases h
  split at h
  · cases h
  split at h
  · cases h
  next hsize =>
  split at h
  · cases h
  next hlength =>
  split at h
  · cases h
  obtain rfl := Except.ok.inj h
  rw [not_not] at hlength
  exact ⟨hlength.trans (contractSize_eq_ok hsize), rfl, rfl⟩

/-- Decoded octets are read back through the views of their contract. -/
theorem read_contractViewAt {m : Memory UInt8} {p : Pointer} {input : Bytes} {d : Contract}
    (hread : m.read p input.length = some input) (hdecode : contractDecode input = .ok d)
    (sequence : UInt64) (state : ContractState) :
    (contractViewAt p (d.moveTo sequence state)).read m = some (d.moveTo sequence state) := by
  obtain ⟨hlength, hpacked, hterms⟩ := contractDecode_spans hdecode
  have hparticipants : readSpan m
      (d.participantBytes.map fun _ => p.advance contractHeaderSize)
      (d.participantCount * contractParticipantSize) = some d.participantBytes := by
    rw [hpacked]
    split
    · rfl
    · exact congrArg (Option.map some) (Memory.read_advance hread (by omega))
  have hagreed : readSpan m
      (d.terms.map fun _ =>
        p.advance (contractHeaderSize + d.participantCount * contractParticipantSize))
      d.termsLength = some d.terms := by
    rw [hterms]
    split
    · rfl
    · exact congrArg (Option.map some) (Memory.read_advance hread (by omega))
  simp only [ContractView.read, contractViewAt, Contract.moveTo, hparticipants, hagreed,
    Option.bind_eq_bind, Option.bind_some]
  rfl

theorem EntryRecord.At.read_eq {m : Memory UInt8} {block : ℕ} {octets : Bytes} {e : EntryRecord}
    {v : ContractStateEntry} (h : e.At (some block) octets v)
    (hblock : m.blocks block = some octets) : e.read m = some v := by
  obtain ⟨d, hdecode, hmoved, hview⟩ := h.current
  have hpointer : e.canonicalDraft.block = block := (Option.some.inj h.block).symm
  have hread : m.read e.canonicalDraft e.canonicalDraftLength = some v.canonicalDraft := by
    rw [h.draft]
    rw [← hpointer] at hblock
    exact Memory.read_of_blocks hblock h.within
  have hlength : v.canonicalDraft.length = e.canonicalDraftLength := by
    have hwithin := h.within
    rw [h.draft, List.length_take, List.length_drop]
    omega
  rw [← hlength] at hread
  have hcurrent := read_contractViewAt hread hdecode v.current.sequence v.current.state
  rw [← hmoved, ← hview] at hcurrent
  rw [hlength] at hread
  simp only [EntryRecord.read, hread, hcurrent, Option.bind_eq_bind, Option.bind_some,
    h.contractId, h.voteOffset, h.voteCount, h.eligibleCount, h.requiredCount]
  rfl

theorem read_entries {m : Memory UInt8} {drafts : Option ℕ} {octets : Bytes}
    {es : List EntryRecord} {vs : List ContractStateEntry} (hholds : BufferHolds m drafts octets)
    (h : List.Forall₂ (EntryRecord.At drafts octets) es vs) :
    es.mapM (EntryRecord.read m) = some vs := by
  induction h with
  | nil => rfl
  | @cons e v es vs he _ ih =>
      have hfirst : e.read m = some v := by
        cases drafts with
        | none => exact absurd hholds he.octets_ne_nil
        | some block => exact he.read_eq hholds
      rw [List.mapM_cons, hfirst]
      simp only [ih, Option.bind_eq_bind, Option.bind_some]
      rfl

/-! ## Registering -/

section Operations

variable [Primitives] {w : SnapshotWorld} {a : ℕ} {o : SnapshotRecord} {s : ContractSnapshot}

namespace SnapshotWorld

omit [Primitives] in
theorem storeEntries_eq (ho : w.snapshots a = some o) (hs : o.Represents w.memory a s) :
    w.storeEntries o.state = some o.entries := by
  rw [storeEntries, hs.home, ho, hs.count, Option.map_some, List.take_length]

omit [Primitives] in
theorem modify_eq (ho : w.snapshots a = some o) (f : SnapshotRecord → SnapshotRecord) :
    w.modify a f = w.put a (f o) := by
  rw [modify, ho, Option.map_some, put]

omit [Primitives] in
@[simp] theorem snapshots_put_self (w : SnapshotWorld) (a : ℕ) (o : SnapshotRecord) :
    (w.put a o).snapshots a = some o :=
  Function.update_self ..

omit [Primitives] in
@[simp] theorem put_put (w : SnapshotWorld) (a : ℕ) (o o' : SnapshotRecord) :
    (w.put a o).put a o' = w.put a o' := by
  simp only [put, Function.update_idem]

omit [Primitives] in
@[simp] theorem memory_put (w : SnapshotWorld) (a : ℕ) (o : SnapshotRecord) :
    (w.put a o).memory = w.memory := rfl

omit [Primitives] in
/-- The entries of a sound snapshot are read back. -/
theorem content_eq (ho : w.snapshots a = some o) (hs : o.Represents w.memory a s) :
    w.content a = some s := by
  obtain ⟨octets, hholds, -, hentries⟩ := hs.entries
  have hread := read_entries hholds hentries
  simp only [content, ho, hs.home, storeEntries_eq ho hs, hread, Option.bind_eq_bind,
    Option.bind_some, hs.capacities.1, hs.capacities.2, hs.votes, hs.voteCount]
  rw [← hs.capacities'.1, ← hs.capacities'.2]
  rfl

/-- Registering a draft in a snapshot's own buffer does what it does by value. -/
theorem stateRegister_represents (p : Pointer) (length : ℕ) {octets input : Bytes}
    (ho : w.snapshots a = some o) (hs : o.Represents w.memory a s)
    (hp : o.draftBytes = some p.block) (hoctets : w.memory.blocks p.block = some octets)
    (hlength : p.offset + length ≤ octets.length)
    (hinput : input = (octets.drop p.offset).take length) :
    match contractStateRegister s.state input with
    | .error status => w.stateRegister a p length = (.error status, w)
    | .ok (state, index) => ∃ o', w.stateRegister a p length = (.ok index, w.put a o') ∧
        o'.Represents w.memory a ⟨state⟩ ∧ o'.draftBytes = o.draftBytes ∧
        o'.draftBytesLength = o.draftBytesLength := by
  have hread : w.memory.read p length = some input := by
    rw [hinput]
    exact Memory.read_of_blocks hoctets hlength
  obtain ⟨octets', hholds, hsize, hentries⟩ := hs.entries
  have hsame : octets' = octets := by
    rw [hp] at hholds
    exact Option.some.inj (hholds.symm.trans hoctets)
  rw [hsame] at hholds hsize hentries
  have hcount : o.entries.length = s.state.entries.length := hentries.length_eq
  have hfind (id : Octets 32) : o.entries.findIdx? (fun e => e.contractId = id) =
      s.state.entries.findIdx? (fun e => e.contractId = id) := by
    have hids := congrArg (List.findIdx? fun x => decide (x = id)) (contractId_of_at hentries)
    rw [List.findIdx?_map, List.findIdx?_map] at hids
    exact hids
  simp only [contractStateRegister, stateRegister, ho, storeEntries_eq ho hs, hread, hs.count,
    hs.capacities.1, hs.capacities.2, hs.capacities'.1, hs.capacities'.2, hs.voteCount, hcount,
    hfind, contractStateFind]
  by_cases hbounds : s.state.entries.length > contractStateMaxContracts ∨
      s.state.voteCount > contractStateMaxVotes
  · simp only [if_pos hbounds]
  have hbelow : ¬ s.state.entries.length > contractStateMaxContracts := fun h => hbounds (.inl h)
  simp only [if_neg hbounds, if_neg hbelow]
  cases hview : draftView input with
  | error status => rfl
  | ok draft =>
  cases haddress : contractAddress input with
  | error status => rfl
  | ok address =>
  dsimp only
  cases hknown : s.state.entries.findIdx? fun e => e.contractId = address.identifier with
  | some index => rfl
  | none =>
  dsimp only
  by_cases hfull : s.state.entries.length = contractStateMaxContracts
  · simp only [if_pos hfull]
  simp only [if_neg hfull]
  by_cases hroom : draft.participantCount > contractStateMaxVotes - s.state.voteCount
  · simp only [if_pos hroom]
  simp only [if_neg hroom]
  cases hvotes : contractVoteStateInitialize input draft.participantCount with
  | error status => rfl
  | ok votes =>
  dsimp only
  have hdecode := draftView_eq_ok_iff.mp hview
  have hnew : EntryRecord.At o.draftBytes octets ⟨address.identifier, p, length,
      contractViewAt p draft, s.state.voteCount, 0, votes.eligibleCount, votes.requiredCount⟩
      ⟨address.identifier, input, draft, s.state.voteCount, 0, votes.eligibleCount,
        votes.requiredCount⟩ :=
    ⟨hp, hlength, hinput, ⟨draft, hdecode.1, (draft.moveTo_self).symm, rfl⟩, rfl, rfl, rfl, rfl,
      rfl⟩
  refine ⟨{ o with
    state := { o.state with
      entryCount := s.state.entries.length + 1
      voteCount := s.state.voteCount + draft.participantCount }
    entries := o.entries ++ [⟨address.identifier, p, length, contractViewAt p draft,
      s.state.voteCount, 0, votes.eligibleCount, votes.requiredCount⟩] }, ?_, ?_, rfl, rfl⟩
  · rw [writeEntry, hs.home, modify_eq ho, modify_eq (snapshots_put_self ..), put_put, ← hcount,
      Buffer.overwrite_length]
    simp only [hs.count, hs.voteCount, hs.home]
  · refine { hs with
      count := by simp [hcount]
      voteCount := rfl
      capacities' := ⟨rfl, rfl⟩
      entries := ⟨octets, hholds, hsize, ?_⟩ }
    exact List.rel_append hentries (.cons hnew .nil)

/-! ## Voting -/

omit [Primitives] in
/-- A view moves through its lifecycle as its contract does. -/
theorem viewApplyAction_at (p : Pointer) (contract : Contract) (action : ContractAction)
    (sequence : UInt64) :
    viewApplyAction (contractViewAt p contract) action sequence =
      (contractApplyAction contract action sequence).map (contractViewAt p) := by
  have hview : (contractViewAt p contract).version = contract.version ∧
      (contractViewAt p contract).sequence = contract.sequence ∧
      (contractViewAt p contract).state = contract.state := ⟨rfl, rfl, rfl⟩
  simp only [viewApplyAction, contractApplyAction, hview]
  split
  · rfl
  split
  · rfl
  cases contractTransition contract.state action <;> rfl

theorem viewVoteApply_at (p : Pointer) (contract : Contract) (sequence : UInt64)
    (canonicalDraft : Bytes) (actor : Octets 32) (votes : ContractVoteState) :
    viewVoteApply (contractViewAt p contract) sequence canonicalDraft actor votes =
      (contractVoteApply contract sequence canonicalDraft actor votes).map
        fun r => (r.1, contractViewAt p r.2) := by
  have hview : (contractViewAt p contract).sequence = contract.sequence ∧
      (contractViewAt p contract).state = contract.state := ⟨rfl, rfl⟩
  simp only [viewVoteApply, contractVoteApply, hview]
  split
  · rfl
  split
  · rfl
  cases contractVoteAccept votes canonicalDraft actor <;> rfl

theorem contractVoteApply_moveTo {current next : Contract} {sequence : UInt64}
    {canonicalDraft : Bytes} {actor : Octets 32} {votes votes' : ContractVoteState}
    (h : contractVoteApply current sequence canonicalDraft actor votes = .ok (votes', next)) :
    next = current.moveTo next.sequence next.state := by
  simp only [contractVoteApply] at h
  split at h
  · cases h
  split at h
  · cases h
  split at h
  · cases h
  rw [← (Prod.mk.inj (Except.ok.inj h)).2]
  rfl

omit [Primitives] in
theorem contractApplyAction_moveTo {current next : Contract} {action : ContractAction}
    {sequence : UInt64} (h : contractApplyAction current action sequence = .ok next) :
    next = current.moveTo next.sequence next.state := by
  simp only [contractApplyAction] at h
  split at h
  · cases h
  split at h
  · cases h
  split at h
  · cases h
  rw [← Except.ok.inj h]
  rfl

omit [Primitives] in
/-- The contract an entry moves on to keeps the views of its draft. -/
theorem keepViews_at {drafts : Option ℕ} {octets : Bytes} {e : EntryRecord}
    {v : ContractStateEntry} (h : e.At drafts octets v) {draft next : Contract}
    (hdraft : contractDecode v.canonicalDraft = .ok draft)
    (hnext : next = draft.moveTo next.sequence next.state) (p : Pointer) (voteCount : ℕ) :
    EntryRecord.At drafts octets
      { e with current := keepViews e (contractViewAt p next), voteCount }
      { v with current := keepSpans v next, voteCount } := by
  obtain ⟨d, hdecode, hmoved, hview⟩ := h.current
  obtain rfl := Except.ok.inj (hdecode.symm.trans hdraft)
  have hkept : keepSpans v next = next := by
    rw [hnext, keepSpans, hmoved]
    rfl
  refine { h with voteCount := rfl, current := ⟨d, hdecode, ?_, ?_⟩ }
  · dsimp only
    rw [hkept]
    exact hnext
  · dsimp only
    rw [hkept, keepViews, hview, hmoved, hnext]
    rfl

/-- A vote in a snapshot does what it does by value, wherever the caller holds the octets of
the current contract. -/
theorem stateApplyVote_represents (ho : w.snapshots a = some o)
    (hs : o.Represents w.memory a s) (index : ℕ) (canonicalCurrent : Bytes) (p : Pointer)
    (sequence : UInt64) (actor : Octets 32) :
    match contractStateApplyVote s.state index canonicalCurrent sequence actor with
    | .error status =>
        w.stateApplyVote a index canonicalCurrent p sequence actor = (.error status, w)
    | .ok state => ∃ o', w.stateApplyVote a index canonicalCurrent p sequence actor =
          (.ok (), w.put a o') ∧
        o'.Represents w.memory a ⟨state⟩ ∧ o'.draftBytes = o.draftBytes ∧
        o'.draftBytesLength = o.draftBytesLength := by
  obtain ⟨octets, hholds, hsize, hentries⟩ := hs.entries
  simp only [contractStateApplyVote, stateApplyVote, ho, hs.home, storeEntries_eq ho hs,
    Option.bind_some]
  obtain ⟨hnone, hnone'⟩ | ⟨e, v, he, hv, hat⟩ := Entrywise.getElem?_cases hentries index
  · simp only [hnone, hnone']
  simp only [he, hv]
  simp only [hat.read_held hholds]
  cases hlineage : contractLineageValidate v.canonicalDraft canonicalCurrent with
  | error status => rfl
  | ok _ =>
  cases hdecoded : contractDecode canonicalCurrent with
  | error status => rfl
  | ok current =>
  obtain ⟨d, -, -, hview⟩ := hat.current
  have hsequence : e.current.sequence = v.current.sequence := by rw [hview]; rfl
  have hstate : e.current.state = v.current.state := by rw [hview]; rfl
  simp only [hsequence, hstate, hat.voteCount, hat.voteOffset, hat.eligibleCount,
    hat.requiredCount, hat.contractId, hs.votes, viewVoteApply_at]
  have hview' : (contractViewAt p current).sequence = current.sequence ∧
      (contractViewAt p current).state = current.state := ⟨rfl, rfl⟩
  simp only [hview']
  by_cases hother : current.sequence ≠ v.current.sequence ∨ current.state ≠ v.current.state
  · simp only [if_pos hother]
  simp only [if_neg hother]
  cases hvote : contractVoteApply current sequence v.canonicalDraft actor
      ⟨v.contractId, (List.range v.voteCount).map fun i => s.state.votes (v.voteOffset + i),
        v.eligibleCount, v.eligibleCount, v.requiredCount⟩ with
  | error status => simp only [Except.map]
  | ok r =>
  obtain ⟨votes, next⟩ := r
  obtain ⟨draft, current', hdraft, hcurrent', hlike⟩ :=
    contractLineageValidate_eq_ok_iff.mp hlineage
  obtain rfl := Except.ok.inj (hdecoded.symm.trans hcurrent')
  have hnext : next = draft.moveTo next.sequence next.state := by
    rw [contractVoteApply_moveTo hvote, hlike]
    rfl
  simp only [Except.map]
  have hindex : index < o.entries.length := (List.getElem?_eq_some_iff.mp he).1
  have hkept := keepViews_at hat (draftView_eq_ok_iff.mp hdraft).1 hnext p votes.accepted.length
  refine ⟨{ o with
    entries := o.entries.set index { e with
      current := keepViews e (contractViewAt p next)
      voteCount := votes.accepted.length }
    votes := fun slot =>
      if slot = v.voteOffset + v.voteCount then (votes.accepted.getLast?).getD (s.state.votes slot)
      else s.state.votes slot }, ?_, ?_, rfl, rfl⟩
  · rw [writeEntry, hs.home, modify_eq ho, modify_eq (snapshots_put_self ..), put_put,
      Buffer.overwrite_one hindex]
    simp only [hat.contractId, hat.voteOffset, hat.eligibleCount, hat.requiredCount, hs.votes]
  · refine { hs with
      count := by rw [List.length_set]; exact hs.count
      votes := rfl
      entries := ⟨octets, hholds, hsize, Entrywise.set hentries index hkept⟩ }

end SnapshotWorld

end Operations

end StnChain
