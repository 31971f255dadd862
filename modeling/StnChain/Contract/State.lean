import StnChain.Contract.Votes

/-!
# Registered contracts

The lineage of a contract from its draft (`stn_contract_lineage.c`), the store
of registered contracts (`stn_contract_state.c`) and the snapshot that owns the
store and the draft octets (`stn_contract_snapshot.c`).  Vote keys live in one
slot array shared by the entries; an entry owns the slots from its offset on.
-/

namespace StnChain

variable [Primitives]

/-! ## Lineage -/

/-- `stn_contract_lineage_validate`. -/
def contractLineageValidate (canonicalDraft canonicalCurrent : Bytes) :
    Except ContractStatus Unit :=
  match draftView canonicalDraft with
  | .error status => .error status
  | .ok draft =>
      match contractDecode canonicalCurrent with
      | .error status => .error status
      | .ok current =>
          if draft.version ≠ current.version ∨ draft.type ≠ current.type ∨
              draft.createdAt ≠ current.createdAt ∨
              draft.participantCount ≠ current.participantCount ∨
              draft.termsLength ≠ current.termsLength then .error .address
          else if draft.participantBytes ≠ current.participantBytes then .error .address
          else if draft.terms ≠ current.terms then .error .address
          else .ok ()

/-! ## The store -/

/-- `stn_contract_state_entry`. -/
structure ContractStateEntry where
  contractId : Octets 32
  canonicalDraft : Bytes
  current : Contract
  voteOffset : ℕ
  voteCount : ℕ
  eligibleCount : ℕ
  requiredCount : ℕ

/-- `stn_contract_state_store`. -/
structure ContractStateStore where
  entries : List ContractStateEntry
  entryCapacity : ℕ
  votes : ℕ → VoteKey
  voteCount : ℕ
  voteCapacity : ℕ

/-- `stn_contract_state_initialize`, over zeroed storage. -/
def contractStateInitialize (entryCapacity voteCapacity : ℕ) : ContractStateStore :=
  ⟨[], entryCapacity, fun _ => ⟨0, 0⟩, 0, voteCapacity⟩

/-- `stn_contract_state_find`. -/
def contractStateFind (state : ContractStateStore) (contractId : Octets 32) :
    Except ContractStatus ℕ :=
  if state.entries.length > state.entryCapacity then .error .argument
  else
    match state.entries.findIdx? fun entry => entry.contractId = contractId with
    | some i => .ok i
    | none => .error .address

/-- `stn_contract_state_register`: the store with the new entry, and its index. -/
def contractStateRegister (state : ContractStateStore) (canonicalDraft : Bytes) :
    Except ContractStatus (ContractStateStore × ℕ) :=
  if state.entries.length > state.entryCapacity ∨ state.voteCount > state.voteCapacity then
    .error .argument
  else
    match draftView canonicalDraft with
    | .error status => .error status
    | .ok draft =>
        match contractAddress canonicalDraft with
        | .error status => .error status
        | .ok address =>
            match contractStateFind state address.identifier with
            | .ok _ => .error .address
            | .error _ =>
                if state.entries.length = state.entryCapacity then .error .capacity
                else if draft.participantCount > state.voteCapacity - state.voteCount then
                  .error .capacity
                else
                  match contractVoteStateInitialize canonicalDraft draft.participantCount with
                  | .error status => .error status
                  | .ok votes => .ok ({ state with
                      entries := state.entries ++ [{
                        contractId := address.identifier
                        canonicalDraft
                        current := draft
                        voteOffset := state.voteCount
                        voteCount := 0
                        eligibleCount := votes.eligibleCount
                        requiredCount := votes.requiredCount }]
                      voteCount := state.voteCount + draft.participantCount },
                    state.entries.length)

/-- A contract that keeps the storage an entry's participants and terms borrow. -/
def keepSpans (entry : ContractStateEntry) (next : Contract) : Contract :=
  { next with
    participants := entry.current.participants
    participantBytes := entry.current.participantBytes
    terms := entry.current.terms }

/-- `stn_contract_state_apply_vote`. -/
def contractStateApplyVote (state : ContractStateStore) (index : ℕ) (canonicalCurrent : Bytes)
    (expectedSequence : UInt64) (actor : Octets 32) :
    Except ContractStatus ContractStateStore :=
  match state.entries[index]? with
  | none => .error .argument
  | some entry =>
      match contractLineageValidate entry.canonicalDraft canonicalCurrent with
      | .error status => .error status
      | .ok () =>
          match contractDecode canonicalCurrent with
          | .error status => .error status
          | .ok current =>
              if current.sequence ≠ entry.current.sequence ∨
                  current.state ≠ entry.current.state then .error .state
              else
                let votes : ContractVoteState := {
                  contractId := entry.contractId
                  accepted := (List.range entry.voteCount).map fun i =>
                    state.votes (entry.voteOffset + i)
                  acceptedCapacity := entry.eligibleCount
                  eligibleCount := entry.eligibleCount
                  requiredCount := entry.requiredCount }
                match contractVoteApply current expectedSequence entry.canonicalDraft actor votes
                with
                | .error status => .error status
                | .ok (votes, next) =>
                    .ok { state with
                      entries := state.entries.set index { entry with
                        current := keepSpans entry next
                        voteCount := votes.accepted.length }
                      votes := fun slot =>
                        if slot = entry.voteOffset + entry.voteCount then
                          (votes.accepted.getLast?).getD (state.votes slot)
                        else state.votes slot }

/-! ## The snapshot -/

/-- `STN_CONTRACT_STATE_MAX_CONTRACTS`. -/
def contractStateMaxContracts : ℕ := 128

/-- `STN_CONTRACT_STATE_MAX_VOTES`. -/
def contractStateMaxVotes : ℕ := contractStateMaxContracts * contractMaxParticipants

/-- `stn_contract_snapshot`, whose entries own their draft octets. -/
structure ContractSnapshot where
  state : ContractStateStore

/-- `stn_contract_snapshot_create`. -/
def contractSnapshotCreate : ContractSnapshot :=
  ⟨contractStateInitialize contractStateMaxContracts contractStateMaxVotes⟩

/-- `bind`: every entry's current contract is decoded again from its draft and
keeps only its sequence and state. -/
def contractSnapshotBind (snapshot : ContractSnapshot) : Option ContractSnapshot :=
  let rebound := snapshot.state.entries.mapM fun entry =>
    match contractDecode entry.canonicalDraft with
    | .error _ => none
    | .ok decoded => some { entry with
        current := { decoded with
          sequence := entry.current.sequence
          state := entry.current.state } }
  rebound.map fun entries => ⟨{ snapshot.state with
    entries
    entryCapacity := contractStateMaxContracts
    voteCapacity := contractStateMaxVotes }⟩

omit [Primitives] in
/-- Decoding the current contracts again keeps the registered contracts. -/
theorem contractSnapshotBind_eq_some {snapshot bound : ContractSnapshot}
    (h : contractSnapshotBind snapshot = some bound) :
    bound.state.entries.map ContractStateEntry.contractId =
      snapshot.state.entries.map ContractStateEntry.contractId := by
  simp only [contractSnapshotBind, Option.map_eq_some_iff] at h
  obtain ⟨entries, hentries, rfl⟩ := h
  show entries.map ContractStateEntry.contractId = _
  generalize snapshot.state.entries = old at hentries
  induction old generalizing entries with
  | nil =>
      obtain rfl : entries = [] := by simpa using hentries.symm
      rfl
  | cons entry old ih =>
      simp only [List.mapM_cons, Option.bind_eq_bind, Option.bind_eq_some_iff] at hentries
      obtain ⟨first, hfirst, rest, hrest, hcons⟩ := hentries
      obtain rfl := Option.some.inj hcons
      split at hfirst
      · simp at hfirst
      · obtain rfl := Option.some.inj hfirst
        simp [ih rest hrest]

/-- `stn_contract_snapshot_clone`. -/
def contractSnapshotClone (source : ContractSnapshot) : Option ContractSnapshot :=
  contractSnapshotBind source

/-- `stn_contract_snapshot_register`. -/
def contractSnapshotRegister (snapshot : ContractSnapshot) (canonicalDraft : Bytes) :
    Except ContractStatus (ContractSnapshot × ℕ) :=
  if canonicalDraft.length > contractMaxSize then .error .capacity
  else
    match contractSnapshotBind snapshot with
    | none => .error .argument
    | some bound =>
        match contractStateRegister bound.state canonicalDraft with
        | .error status => .error status
        | .ok (state, index) => .ok (⟨state⟩, index)

end StnChain
