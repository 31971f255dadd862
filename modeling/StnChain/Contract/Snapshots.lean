import StnChain.Contract.Entries
import StnChain.Support.Allocations
import StnChain.Support.Buffer

/-!
# Contract snapshots in memory

A snapshot owns one buffer with the octets of all its drafts, and its entries borrow from
it: an entry points to its draft, and its current contract to the packed participants and
the terms in that draft.  Here are the operations of `stn_contract_snapshot.c` and
`stn_contract_state.c` over pointers; `StnChain.Contract.State` has what they compute.
-/

namespace StnChain

open Allocations

/-! ## Borrowed contracts -/

/-- `stn_contract`, whose packed participants and terms are borrowed. -/
structure ContractView where
  version : UInt16
  type : ContractType
  sequence : UInt64
  createdAt : UInt64
  state : ContractState
  participants : Option (List ContractParticipant)
  participantCount : ℕ
  participantBytes : Option Pointer
  terms : Option Pointer
  termsLength : ℕ

/-- What `stn_contract_decode` fills in for octets at `p` that decode as `contract`. -/
def contractViewAt (p : Pointer) (contract : Contract) : ContractView where
  version := contract.version
  type := contract.type
  sequence := contract.sequence
  createdAt := contract.createdAt
  state := contract.state
  participants := contract.participants
  participantCount := contract.participantCount
  participantBytes := contract.participantBytes.map fun _ => p.advance contractHeaderSize
  terms := contract.terms.map fun _ =>
    p.advance (contractHeaderSize + contract.participantCount * contractParticipantSize)
  termsLength := contract.termsLength

/-- `stn_contract_decode` of the octets at a pointer. -/
def contractDecodeAt (m : Memory UInt8) (p : Pointer) (length : ℕ) :
    Except ContractStatus ContractView :=
  match m.read p length with
  | none => .error .argument
  | some input =>
      match contractDecode input with
      | .error status => .error status
      | .ok contract => .ok (contractViewAt p contract)

/-- `stn_contract_apply_action`. -/
def viewApplyAction (current : ContractView) (action : ContractAction)
    (expectedSequence : UInt64) : Except ContractStatus ContractView :=
  if current.version ≠ 1 then .error .version
  else if current.sequence = 0xffffffffffffffff ∨ expectedSequence ≠ current.sequence + 1 then
    .error .sequence
  else
    match contractTransition current.state action with
    | none => .error .transition
    | some next => .ok { current with sequence := expectedSequence, state := next }

/-- `stn_contract_vote_apply`. -/
def viewVoteApply [Primitives] (current : ContractView) (expectedSequence : UInt64)
    (canonicalDraft : Bytes) (actor : Octets 32) (votes : ContractVoteState) :
    Except ContractStatus (ContractVoteState × ContractView) :=
  if current.state ≠ .review ∧ current.state ≠ .approvals then .error .transition
  else if current.sequence = 0xffffffffffffffff ∨ expectedSequence ≠ current.sequence + 1 then
    .error .sequence
  else
    match contractVoteAccept votes canonicalDraft actor with
    | .error status => .error status
    | .ok (votes, reached) => .ok (votes, { current with
        sequence := expectedSequence
        state := if reached then .attestation else .approvals })

/-! ## Snapshots -/

/-- `stn_contract_state_entry`. -/
structure EntryRecord where
  contractId : Octets 32
  canonicalDraft : Pointer
  canonicalDraftLength : ℕ
  current : ContractView
  voteOffset : ℕ
  voteCount : ℕ
  eligibleCount : ℕ
  requiredCount : ℕ

/-- `stn_contract_state_store`: `home` is the snapshot whose arrays of entries and votes it
points to. -/
structure StoreRecord where
  home : ℕ
  entryCount : ℕ
  entryCapacity : ℕ
  voteCount : ℕ
  voteCapacity : ℕ

/-- `stn_contract_snapshot`; the entries are the cells of its array that were written. -/
structure SnapshotRecord where
  references : UInt64
  state : StoreRecord
  entries : List EntryRecord
  votes : ℕ → VoteKey
  draftBytes : Option ℕ
  draftBytesLength : ℕ

/-- Octets in memory and the snapshots in use, by their addresses. -/
structure SnapshotWorld where
  memory : Memory UInt8
  snapshots : ℕ → Option SnapshotRecord
  next : ℕ

namespace SnapshotWorld

/-- Before anything is created. -/
def empty : SnapshotWorld :=
  ⟨.empty, fun _ => none, 0⟩

/-- The world with another record at an address. -/
def put (w : SnapshotWorld) (a : ℕ) (o : SnapshotRecord) : SnapshotWorld :=
  { w with snapshots := Function.update w.snapshots a (some o) }

/-- The world with a record changed in place. -/
def modify (w : SnapshotWorld) (a : ℕ) (f : SnapshotRecord → SnapshotRecord) : SnapshotWorld :=
  { w with snapshots := Function.update w.snapshots a ((w.snapshots a).map f) }

/-- The entries a store points to. -/
def storeEntries (w : SnapshotWorld) (state : StoreRecord) : Option (List EntryRecord) :=
  (w.snapshots state.home).map fun arrays => arrays.entries.take state.entryCount

/-- An assignment to an entry that a store points to. -/
def writeEntry (w : SnapshotWorld) (state : StoreRecord) (index : ℕ) (entry : EntryRecord) :
    SnapshotWorld :=
  w.modify state.home fun arrays =>
    { arrays with entries := Buffer.overwrite arrays.entries index [entry] }

/-! ## Binding -/

/-- One round of `bind`.  A draft outside the old buffer is refused, as is one that reaches
over the length of the new one. -/
def bindEntry (m : Memory UInt8) (draftBytes : Option ℕ) (length : ℕ) (oldDrafts : Option ℕ)
    (entry : EntryRecord) : Bool × EntryRecord :=
  if oldDrafts ≠ some entry.canonicalDraft.block ∨ entry.canonicalDraft.offset > length then
    (false, entry)
  else if entry.canonicalDraftLength > length - entry.canonicalDraft.offset then (false, entry)
  else
    match draftBytes with
    | none => (false, entry)
    | some block =>
        let moved := { entry with canonicalDraft := ⟨block, entry.canonicalDraft.offset⟩ }
        match contractDecodeAt m moved.canonicalDraft moved.canonicalDraftLength with
        | .error _ => (false, moved)
        | .ok decoded => (true, { moved with
            current := { decoded with
              sequence := entry.current.sequence
              state := entry.current.state } })

/-- The loop of `bind`; the entries before one that fails stay bound. -/
def bindEntries (m : Memory UInt8) (draftBytes : Option ℕ) (length : ℕ)
    (oldDrafts : Option ℕ) : List EntryRecord → Bool × List EntryRecord
  | [] => (true, [])
  | entry :: rest =>
      match bindEntry m draftBytes length oldDrafts entry with
      | (false, entry) => (false, entry :: rest)
      | (true, entry) =>
          let (bound, rest) := bindEntries m draftBytes length oldDrafts rest
          (bound, entry :: rest)

/-- `bind`. -/
def bind (w : SnapshotWorld) (a : ℕ) (oldDrafts : Option ℕ) : Bool × SnapshotWorld :=
  match w.snapshots a with
  | none => (false, w)
  | some o =>
      let (bound, entries) := bindEntries w.memory o.draftBytes o.draftBytesLength oldDrafts
        (o.entries.take o.state.entryCount)
      (bound, w.put a { o with
        state := { o.state with
          home := a
          entryCapacity := contractStateMaxContracts
          voteCapacity := contractStateMaxVotes }
        entries := entries ++ o.entries.drop o.state.entryCount })

/-! ## Creating, copying and releasing -/

/-- `stn_contract_snapshot_create`; the flag is the answer of the allocator. -/
def snapshotCreate (w : SnapshotWorld) (allocates : Bool) : Option ℕ × SnapshotWorld :=
  if !allocates then (none, w)
  else (some w.next, { w with
    snapshots := Function.update w.snapshots w.next (some {
      references := 1
      state := ⟨w.next, 0, contractStateMaxContracts, 0, contractStateMaxVotes⟩
      entries := []
      votes := fun _ => ⟨0, 0⟩
      draftBytes := none
      draftBytesLength := 0 })
    next := w.next + 1 })

/-- What `memcpy` copies of a snapshot's draft buffer. -/
def draftOctets (m : Memory UInt8) (o : SnapshotRecord) : Bytes :=
  match o.draftBytes with
  | none => []
  | some block => (m.read ⟨block, 0⟩ o.draftBytesLength).getD []

/-- A copy of a record at a new address, with a draft buffer, before it is bound. -/
def copyRecord (w : SnapshotWorld) (memory : Memory UInt8) (source : SnapshotRecord)
    (draftBytes : Option ℕ) : SnapshotWorld where
  memory
  snapshots := Function.update w.snapshots w.next
    (some { source with references := 1, draftBytes })
  next := w.next + 1

/-- The end of `stn_contract_snapshot_clone`: a copy that cannot be bound is freed. -/
def bindCopy (copied : SnapshotWorld) (b : ℕ) (draftBytes oldDrafts : Option ℕ) :
    Option ℕ × SnapshotWorld :=
  match copied.bind b oldDrafts with
  | (true, bound) => (some b, bound)
  | (false, bound) => (none, { bound with
      memory := bound.memory.release draftBytes
      snapshots := Function.update bound.snapshots b none })

/-- `stn_contract_snapshot_clone`; the flags answer for the record and for the buffer. -/
def snapshotClone (w : SnapshotWorld) (a : ℕ) (allocates allocatesDrafts : Bool) :
    Option ℕ × SnapshotWorld :=
  match w.snapshots a with
  | none => (none, w)
  | some source =>
      if source.references = 0 ∨ allocates = false then (none, w)
      else if source.draftBytesLength = 0 then
        (w.copyRecord w.memory source none).bindCopy w.next none source.draftBytes
      else if allocatesDrafts = false then (none, { w with next := w.next + 1 })
      else
        let (block, memory) := w.memory.allocate (draftOctets w.memory source)
        (w.copyRecord memory source (some block)).bindCopy w.next (some block) source.draftBytes

/-- `stn_contract_snapshot_share`; the result is the same address. -/
def snapshotShare (w : SnapshotWorld) (a : ℕ) : Option ℕ × SnapshotWorld :=
  match w.snapshots a with
  | none => (none, w)
  | some o =>
      if o.references = 0 ∨ o.references = 0xffffffffffffffff then (none, w)
      else (some a, w.put a { o with references := o.references + 1 })

/-- `stn_contract_snapshot_release`. -/
def snapshotRelease (w : SnapshotWorld) (a : ℕ) : SnapshotWorld :=
  match w.snapshots a with
  | none => w
  | some o =>
      if o.references - 1 = 0 then { w with
        memory := w.memory.release o.draftBytes
        snapshots := Function.update w.snapshots a none }
      else w.put a { o with references := o.references - 1 }

/-! ## Registering and voting -/

section

variable [Primitives]

/-- `stn_contract_state_register` of a snapshot's store, with the draft at a pointer. -/
def stateRegister (w : SnapshotWorld) (a : ℕ) (canonicalDraft : Pointer) (length : ℕ) :
    Except ContractStatus ℕ × SnapshotWorld :=
  match w.snapshots a with
  | none => (.error .argument, w)
  | some o =>
      match w.storeEntries o.state, w.memory.read canonicalDraft length with
      | some entries, some input =>
          if o.state.entryCount > o.state.entryCapacity ∨
              o.state.voteCount > o.state.voteCapacity then (.error .argument, w)
          else
            match draftView input with
            | .error status => (.error status, w)
            | .ok draft =>
                match contractAddress input with
                | .error status => (.error status, w)
                | .ok address =>
                    match entries.findIdx? fun entry =>
                        entry.contractId = address.identifier with
                    | some _ => (.error .address, w)
                    | none =>
                        if o.state.entryCount = o.state.entryCapacity then (.error .capacity, w)
                        else if draft.participantCount >
                            o.state.voteCapacity - o.state.voteCount then (.error .capacity, w)
                        else
                          match contractVoteStateInitialize input draft.participantCount with
                          | .error status => (.error status, w)
                          | .ok votes =>
                              let written := w.writeEntry o.state o.state.entryCount {
                                contractId := address.identifier
                                canonicalDraft
                                canonicalDraftLength := length
                                current := contractViewAt canonicalDraft draft
                                voteOffset := o.state.voteCount
                                voteCount := 0
                                eligibleCount := votes.eligibleCount
                                requiredCount := votes.requiredCount }
                              (.ok o.state.entryCount, written.modify a fun o => { o with
                                state := { o.state with
                                  entryCount := o.state.entryCount + 1
                                  voteCount := o.state.voteCount + draft.participantCount } })
      | _, _ => (.error .argument, w)

/-- The world with another draft buffer for a snapshot. -/
def setDrafts (w : SnapshotWorld) (a : ℕ) (draftBytes : Option ℕ) (length : ℕ) :
    SnapshotWorld :=
  w.modify a fun o => { o with draftBytes, draftBytesLength := length }

/-- `stn_contract_snapshot_register`, with the octets of the caller's draft. -/
def snapshotRegister (w : SnapshotWorld) (a : ℕ) (canonicalDraft : Bytes) (allocates : Bool) :
    Except ContractStatus ℕ × SnapshotWorld :=
  match w.snapshots a with
  | none => (.error .argument, w)
  | some o =>
      if canonicalDraft.length > contractMaxSize then (.error .capacity, w)
      else if allocates = false then (.error .capacity, w)
      else
        let (grown, memory) :=
          w.memory.allocate (draftOctets w.memory o ++ canonicalDraft)
        let copied := { w with memory }.setDrafts a (some grown)
          (o.draftBytesLength + canonicalDraft.length)
        let (bound, rebound) :=
          if o.draftBytesLength ≠ 0 then copied.bind a o.draftBytes else (true, copied)
        if bound = false then
          let restored := rebound.setDrafts a o.draftBytes o.draftBytesLength
          (.error .argument, { restored with memory := restored.memory.free grown })
        else
          match rebound.stateRegister a ⟨grown, o.draftBytesLength⟩ canonicalDraft.length with
          | (.ok index, registered) =>
              (.ok index, { registered with
                memory := registered.memory.release o.draftBytes })
          | (.error status, refused) =>
              let restored := refused.setDrafts a o.draftBytes o.draftBytesLength
              -- A `bind` that fails here aborts the process.
              let returned :=
                if o.draftBytesLength ≠ 0 then (restored.bind a (some grown)).2 else restored
              (.error status, { returned with memory := returned.memory.free grown })

/-- A contract that keeps the spans an entry borrows. -/
def keepViews (entry : EntryRecord) (next : ContractView) : ContractView :=
  { next with
    participants := entry.current.participants
    participantBytes := entry.current.participantBytes
    terms := entry.current.terms }

/-- `stn_contract_state_apply_vote`; the octets of the current contract are at `p`, in the
caller's memory. -/
def stateApplyVote (w : SnapshotWorld) (a index : ℕ) (canonicalCurrent : Bytes) (p : Pointer)
    (expectedSequence : UInt64) (actor : Octets 32) :
    Except ContractStatus Unit × SnapshotWorld :=
  match w.snapshots a with
  | none => (.error .argument, w)
  | some o =>
      match w.snapshots o.state.home, (w.storeEntries o.state).bind (·[index]?) with
      | some arrays, some entry =>
          match w.memory.read entry.canonicalDraft entry.canonicalDraftLength with
          | none => (.error .argument, w)
          | some canonicalDraft =>
              match contractLineageValidate canonicalDraft canonicalCurrent with
              | .error status => (.error status, w)
              | .ok () =>
                  match contractDecode canonicalCurrent with
                  | .error status => (.error status, w)
                  | .ok decoded =>
                      let current := contractViewAt p decoded
                      if current.sequence ≠ entry.current.sequence ∨
                          current.state ≠ entry.current.state then (.error .state, w)
                      else
                        let votes : ContractVoteState := {
                          contractId := entry.contractId
                          accepted := (List.range entry.voteCount).map fun i =>
                            arrays.votes (entry.voteOffset + i)
                          acceptedCapacity := entry.eligibleCount
                          eligibleCount := entry.eligibleCount
                          requiredCount := entry.requiredCount }
                        match viewVoteApply current expectedSequence canonicalDraft actor votes
                        with
                        | .error status => (.error status, w)
                        | .ok (votes, next) =>
                            let written := w.writeEntry o.state index { entry with
                              current := keepViews entry next
                              voteCount := votes.accepted.length }
                            (.ok (), written.modify o.state.home fun arrays => { arrays with
                              votes := fun slot =>
                                if slot = entry.voteOffset + entry.voteCount then
                                  (votes.accepted.getLast?).getD (arrays.votes slot)
                                else arrays.votes slot })
      | _, _ => (.error .argument, w)

end

end SnapshotWorld

end StnChain
