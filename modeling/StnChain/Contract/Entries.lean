import Mathlib.Data.List.Nodup
import Mathlib.Data.List.Perm.Subperm
import StnChain.Contract.State

/-!
# Entries of the contract store

Every registered entry's current contract is its draft at another sequence and state, so
an action binds exactly the octets of the current contract.  A vote is accepted of an
eligible approver that has not voted; here are the specifications of the operations on
one entry.
-/

namespace StnChain

/-! ## Decoded contracts -/

/-- A contract at another point of its lifecycle. -/
def Contract.moveTo (contract : Contract) (sequence : UInt64) (state : ContractState) :
    Contract :=
  { contract with sequence, state }

@[simp] theorem Contract.moveTo_self (contract : Contract) :
    contract.moveTo contract.sequence contract.state = contract := rfl

@[simp] theorem Contract.moveTo_moveTo (contract : Contract) (sequence sequence' : UInt64)
    (state state' : ContractState) :
    (contract.moveTo sequence state).moveTo sequence' state' =
      contract.moveTo sequence' state' := rfl

/-- The form of a decoded contract: it borrows its packed participants and its terms. -/
structure Contract.Decoded (contract : Contract) : Prop where
  version : contract.version = 1
  participants : contract.participants = none
  packed : contract.participantBytes = none ↔ contract.participantCount = 0
  terms : contract.terms = none ↔ contract.termsLength = 0
  packedLength : ∀ span, contract.participantBytes = some span →
    span.length = contract.participantCount * contractParticipantSize
  termsSpan : ∀ span, contract.terms = some span → span.length = contract.termsLength

theorem Contract.Decoded.moveTo {contract : Contract} (h : contract.Decoded)
    (sequence : UInt64) (state : ContractState) : (contract.moveTo sequence state).Decoded :=
  ⟨h.version, h.participants, h.packed, h.terms, h.packedLength, h.termsSpan⟩

theorem contractSize_eq_ok {participantCount termsLength total : ℕ}
    (h : contractSize participantCount termsLength = .ok total) :
    total = contractHeaderSize + participantCount * contractParticipantSize + termsLength := by
  simp only [contractSize] at h
  repeat' split at h
  all_goals cases h
  rfl

theorem contractDecode_decoded {input : Bytes} {contract : Contract}
    (h : contractDecode input = .ok contract) : contract.Decoded := by
  simp only [contractDecode] at h
  split at h
  · cases h
  split at h
  · cases h
  split at h
  · cases h
  split at h
  · cases h
  split at h
  · cases h
  split at h
  · cases h
  split at h
  · cases h
  next hsize =>
  split at h
  · cases h
  next hlength =>
  split at h
  · cases h
  obtain rfl := Except.ok.inj h
  have htotal := contractSize_eq_ok hsize
  rw [not_not] at hlength
  refine ⟨rfl, rfl, by simp, by simp, ?_, ?_⟩
  · intro span hspan
    dsimp only at hspan
    split at hspan
    · cases hspan
    obtain rfl := Option.some.inj hspan
    exact BigEndian.length_field (by omega)
  · intro span hspan
    dsimp only at hspan
    split at hspan
    · cases hspan
    obtain rfl := Option.some.inj hspan
    exact BigEndian.length_field (by omega)

theorem draftView_eq_ok_iff {input : Bytes} {draft : Contract} :
    draftView input = .ok draft ↔
      contractDecode input = .ok draft ∧ draft.state = .draft ∧ draft.sequence = 0 := by
  rw [draftView]
  cases contractDecode input with
  | error status => simp
  | ok contract =>
      by_cases hdraft : contract.state ≠ .draft ∨ contract.sequence ≠ 0
      · simp only [if_pos hdraft]
        constructor
        · intro h
          cases h
        · rintro ⟨h, hstate, hsequence⟩
          obtain rfl := Except.ok.inj h
          exact absurd hdraft (by simp [hstate, hsequence])
      · simp only [if_neg hdraft]
        rw [not_or, not_not, not_not] at hdraft
        constructor
        · intro h
          obtain rfl := Except.ok.inj h
          exact ⟨rfl, hdraft⟩
        · exact fun h => h.1

/-- Contracts of one lineage differ in sequence and state only. -/
theorem contractLineageValidate_eq_ok_iff {canonicalDraft canonicalCurrent : Bytes} :
    contractLineageValidate canonicalDraft canonicalCurrent = .ok () ↔
      ∃ draft current, draftView canonicalDraft = .ok draft ∧
        contractDecode canonicalCurrent = .ok current ∧
        current = draft.moveTo current.sequence current.state := by
  rw [contractLineageValidate]
  cases hdraft : draftView canonicalDraft with
  | error status => simp
  | ok draft =>
      cases hcurrent : contractDecode canonicalCurrent with
      | error status => simp
      | ok current =>
          have hform := contractDecode_decoded (draftView_eq_ok_iff.mp hdraft).1
          have hform' := contractDecode_decoded hcurrent
          have hparticipants : current.participants = draft.participants := by
            rw [hform.participants, hform'.participants]
          constructor
          · intro h
            refine ⟨draft, current, rfl, rfl, ?_⟩
            simp only at h
            split at h
            · cases h
            next hheader =>
            split at h
            · cases h
            next hpacked =>
            split at h
            · cases h
            next hterms =>
            simp only [not_or, not_not] at hheader hpacked hterms
            obtain ⟨hversion, htype, hcreated, hcount, hlength⟩ := hheader
            cases current
            cases draft
            simp_all [Contract.moveTo]
          · rintro ⟨draft', current', hdraft', hcurrent', h⟩
            obtain rfl := Except.ok.inj hdraft'
            obtain rfl := Except.ok.inj hcurrent'
            rw [h]
            simp [Contract.moveTo]

/-- Below the largest sequence the successor does not wrap. -/
theorem toNat_next {sequence : UInt64} (h : sequence ≠ 0xffffffffffffffff) :
    (sequence + 1).toNat = sequence.toNat + 1 := by
  have hlt := sequence.toNat_lt
  have hne : sequence.toNat ≠ 2 ^ 64 - 1 := fun heq => h (UInt64.toNat_inj.mp heq)
  rw [UInt64.toNat_add]
  show (sequence.toNat + 1) % 2 ^ 64 = _
  rw [Nat.mod_eq_of_lt (by omega)]

/-! ## Approvers -/

/-- The identities of the approvers among some participants. -/
def approversOf (participants : List ContractParticipant) : List (Octets 32) :=
  (participants.filter fun p => p.role = .approver).map ContractParticipant.identity

theorem approversOf_cons (p : ContractParticipant) (rest : List ContractParticipant) :
    approversOf (p :: rest) =
      if p.role = .approver then p.identity :: approversOf rest else approversOf rest := by
  by_cases hrole : p.role = .approver <;> simp [approversOf, hrole]

theorem approversOf_append (participants rest : List ContractParticipant) :
    approversOf (participants ++ rest) = approversOf participants ++ approversOf rest := by
  simp [approversOf]

/-- A counted participant list has that many approvers, none of them twice. -/
theorem countApprovers_eq_some {before participants : List ContractParticipant} {n : ℕ}
    (h : countApprovers before participants = some n) :
    (approversOf participants).length = n ∧ (approversOf participants).Nodup ∧
      ∀ identity ∈ approversOf participants, identity ∉ approversOf before := by
  induction participants generalizing before n with
  | nil =>
      obtain rfl := Option.some.inj h
      exact ⟨rfl, List.nodup_nil, fun _ hnone => absurd hnone List.not_mem_nil⟩
  | cons p rest ih =>
      rw [countApprovers] at h
      rw [approversOf_cons]
      by_cases hrole : p.role = .approver
      · rw [if_neg (not_not.mpr hrole)] at h
        rw [if_pos hrole]
        split at h
        · cases h
        next hfresh =>
        obtain ⟨m, hm, rfl⟩ := Option.map_eq_some_iff.mp h
        obtain ⟨hlength, hnodup, hapart⟩ := ih hm
        have hp : p.identity ∉ approversOf before := by
          intro hmem
          apply hfresh
          simpa [approversOf, and_assoc] using hmem
        have hapart' : ∀ identity ∈ approversOf rest,
            identity ≠ p.identity ∧ identity ∉ approversOf before := by
          intro identity hidentity
          have hnot := hapart identity hidentity
          rw [approversOf_append, approversOf_cons, if_pos hrole] at hnot
          simpa [approversOf, not_or, and_comm] using hnot
        refine ⟨by simp [hlength], ?_, ?_⟩
        · exact List.nodup_cons.mpr ⟨fun hmem => (hapart' _ hmem).1 rfl, hnodup⟩
        · intro identity hidentity
          rcases List.mem_cons.mp hidentity with rfl | hidentity
          · exact hp
          · exact (hapart' identity hidentity).2
      · rw [if_pos hrole] at h
        rw [if_neg hrole]
        obtain ⟨hlength, hnodup, hapart⟩ := ih h
        refine ⟨hlength, hnodup, ?_⟩
        intro identity hidentity
        have hnot := hapart identity hidentity
        rw [approversOf_append] at hnot
        exact fun hmem => hnot (List.mem_append_left _ hmem)

theorem approversOf_length_le (participants : List ContractParticipant) :
    (approversOf participants).length ≤ participants.length := by
  rw [approversOf, List.length_map]
  exact List.length_filter_le _ _

theorem voteScan_eq_ok_iff {draft : Contract} {actor : Octets 32} {indices : List ℕ}
    {participants : List ContractParticipant}
    (h : indices.mapM (contractParticipantAt draft) = .ok participants) :
    contractVoteEligible.scan draft actor indices = .ok () ↔ actor ∈ approversOf participants := by
  induction indices generalizing participants with
  | nil =>
      obtain rfl := Except.ok.inj h
      simp [contractVoteEligible.scan, approversOf]
  | cons i indices ih =>
      obtain ⟨p, rest, hp, hrest, rfl⟩ := mapM_cons_eq_ok h
      simp only [contractVoteEligible.scan, hp]
      rw [approversOf_cons]
      by_cases hrole : p.role = .approver
      · rw [if_pos hrole, List.mem_cons]
        by_cases hidentity : p.identity = actor
        · rw [if_pos ⟨hrole, hidentity⟩]
          exact iff_of_true rfl (Or.inl hidentity.symm)
        · rw [if_neg (fun h => hidentity h.2), ih hrest]
          exact ⟨Or.inr, fun h => h.resolve_left (Ne.symm hidentity)⟩
      · rw [if_neg (fun h => hrole h.1), if_neg hrole, ih hrest]

variable [Primitives]

/-! ## What an entry keeps of its draft -/

/-- An entry whose contract is the draft it was registered with, at another point of its
lifecycle. -/
structure ContractStateEntry.From (entry : ContractStateEntry) (draft : Contract)
    (participants : List ContractParticipant) : Prop where
  view : draftView entry.canonicalDraft = .ok draft
  current : entry.current = draft.moveTo entry.current.sequence entry.current.state
  address : ∃ address, contractAddress entry.canonicalDraft = .ok address ∧
    address.identifier = entry.contractId
  listed : contractParticipants draft = .ok participants
  approvers : (approversOf participants).Nodup
  eligible : entry.eligibleCount = (approversOf participants).length
  nonempty : entry.eligibleCount ≠ 0
  required : entry.requiredCount = entry.eligibleCount / 2 + 1

section Entry

variable {entry : ContractStateEntry} {draft : Contract}
  {participants : List ContractParticipant}

theorem ContractStateEntry.From.decoded (h : entry.From draft participants) :
    entry.current.Decoded := by
  rw [h.current]
  exact (contractDecode_decoded (draftView_eq_ok_iff.mp h.view).1).moveTo _ _

/-- An entry goes on coming from its draft when only its contract's position moves. -/
theorem ContractStateEntry.From.moveTo (h : entry.From draft participants) (sequence : UInt64)
    (state : ContractState) (voteCount : ℕ) :
    ContractStateEntry.From { entry with
      current := entry.current.moveTo sequence state, voteCount } draft participants where
  view := h.view
  current := by
    show entry.current.moveTo sequence state = draft.moveTo sequence state
    rw [h.current, Contract.moveTo_moveTo]
  address := h.address
  listed := h.listed
  approvers := h.approvers
  eligible := h.eligible
  nonempty := h.nonempty
  required := h.required

/-- The contract an action on an entry starts from. -/
def contractSource (entry : ContractStateEntry) :
    Option Bytes → Except ContractStatus Contract
  | none => .ok entry.current
  | some canonicalCurrent =>
      match contractLineageValidate entry.canonicalDraft canonicalCurrent with
      | .error status => .error status
      | .ok () =>
          match contractDecode canonicalCurrent with
          | .error status => .error status
          | .ok current =>
              if current.sequence ≠ entry.current.sequence ∨
                  current.state ≠ entry.current.state then .error .state
              else .ok current

/-- An action binds exactly the octets of the entry's current contract. -/
theorem ContractStateEntry.From.source_eq_ok_iff (h : entry.From draft participants)
    {canonicalCurrent : Bytes} {current : Contract} :
    contractSource entry (some canonicalCurrent) = .ok current ↔
      contractDecode canonicalCurrent = .ok entry.current ∧ current = entry.current := by
  constructor
  · intro hsource
    simp only [contractSource] at hsource
    split at hsource
    · cases hsource
    next hlineage =>
    split at hsource
    · cases hsource
    next decoded hdecoded =>
    split at hsource
    · cases hsource
    next hplace =>
    obtain rfl := Except.ok.inj hsource
    obtain ⟨draft', current', hview, hcurrent', heq⟩ :=
      contractLineageValidate_eq_ok_iff.mp hlineage
    obtain rfl := Except.ok.inj (h.view.symm.trans hview)
    obtain rfl := Except.ok.inj (hdecoded.symm.trans hcurrent')
    rw [not_or, not_not, not_not] at hplace
    have hsame : decoded = entry.current := by
      rw [heq, h.current, hplace.1, hplace.2]
    exact ⟨hsame ▸ hdecoded, hsame⟩
  · rintro ⟨hdecoded, rfl⟩
    have hlineage : contractLineageValidate entry.canonicalDraft canonicalCurrent = .ok () :=
      contractLineageValidate_eq_ok_iff.mpr ⟨draft, entry.current, h.view, hdecoded, h.current⟩
    simp only [contractSource, hlineage, hdecoded]
    rw [if_neg (by simp)]

/-- The approvers of the draft whose key is an identity may vote. -/
theorem ContractStateEntry.From.eligible_iff (h : entry.From draft participants)
    {actor : Octets 32} :
    contractVoteEligible entry.canonicalDraft actor = .ok () ↔
      identityDerive actor = some actor ∧ actor ∈ approversOf participants := by
  simp only [contractVoteEligible, h.view]
  cases hactor : identityDerive actor with
  | none => simp
  | some canonicalActor =>
      obtain rfl := identityDerive_eq_some hactor
      rw [voteScan_eq_ok_iff h.listed]
      simp

/-- The vote set an entry's votes make. -/
def entryVoteState (entry : ContractStateEntry) (votes : List VoteKey) : ContractVoteState where
  contractId := entry.contractId
  accepted := votes
  acceptedCapacity := entry.eligibleCount
  eligibleCount := entry.eligibleCount
  requiredCount := entry.requiredCount

/-- The votes of an entry: keys of its contract, of distinct eligible approvers. -/
structure VotesCast (entry : ContractStateEntry) (votes : List VoteKey) : Prop where
  cast : ∀ key ∈ votes, key.contractId = entry.contractId ∧
    contractVoteEligible entry.canonicalDraft key.actor = .ok ()
  distinct : (votes.map VoteKey.actor).Nodup

omit [Primitives] in
theorem VotesCast.nil (entry : ContractStateEntry) : VotesCast entry [] where
  cast := fun _ hkey => absurd hkey List.not_mem_nil
  distinct := List.nodup_nil

omit [Primitives] in
theorem VotesCast.mem_iff {votes : List VoteKey} (hvotes : VotesCast entry votes)
    {actor : Octets 32} :
    (⟨entry.contractId, actor⟩ : VoteKey) ∈ votes ↔ actor ∈ votes.map VoteKey.actor := by
  constructor
  · exact fun h => List.mem_map.mpr ⟨_, h, rfl⟩
  · intro h
    obtain ⟨key, hkey, rfl⟩ := List.mem_map.mp h
    rw [← (hvotes.cast key hkey).1]
    exact hkey

omit [Primitives] in
/-- A further vote of an approver that has not voted. -/
theorem VotesCast.snoc {votes : List VoteKey} (hvotes : VotesCast entry votes)
    {actor : Octets 32} (helig : contractVoteEligible entry.canonicalDraft actor = .ok ())
    (hfresh : (⟨entry.contractId, actor⟩ : VoteKey) ∉ votes) :
    VotesCast entry (votes ++ [⟨entry.contractId, actor⟩]) where
  cast := by
    intro key hkey
    rcases List.mem_append.mp hkey with hkey | hkey
    · exact hvotes.cast key hkey
    · obtain rfl := List.mem_singleton.mp hkey
      exact ⟨rfl, helig⟩
  distinct := by
    rw [List.map_append, List.map_singleton]
    exact hvotes.distinct.append (List.nodup_singleton _)
      (List.disjoint_singleton.mpr fun h => hfresh (hvotes.mem_iff.mpr h))

/-- No more votes are cast than there are approvers. -/
theorem VotesCast.length_le (h : entry.From draft participants) {votes : List VoteKey}
    (hvotes : VotesCast entry votes) : votes.length ≤ entry.eligibleCount := by
  have hsubset : votes.map VoteKey.actor ⊆ approversOf participants := by
    intro actor hactor
    obtain ⟨key, hkey, rfl⟩ := List.mem_map.mp hactor
    exact (h.eligible_iff.mp (hvotes.cast key hkey).2).2
  have hlength := (List.subperm_of_subset hvotes.distinct hsubset).length_le
  rwa [List.length_map, ← h.eligible] at hlength

/-- A vote is accepted of an eligible approver that has not voted. -/
theorem contractVoteAccept_eq_ok_iff (h : entry.From draft participants) {votes : List VoteKey}
    (hvotes : VotesCast entry votes) {actor : Octets 32} {r : ContractVoteState × Bool} :
    contractVoteAccept (entryVoteState entry votes) entry.canonicalDraft actor = .ok r ↔
      (contractVoteEligible entry.canonicalDraft actor = .ok () ∧
        (⟨entry.contractId, actor⟩ : VoteKey) ∉ votes) ∧
      r = (entryVoteState entry (votes ++ [⟨entry.contractId, actor⟩]),
        decide (votes.length + 1 ≥ entry.requiredCount)) := by
  obtain ⟨address, haddress, hid⟩ := h.address
  have hlength := hvotes.length_le h
  have hguard : ¬ (votes.length > entry.eligibleCount ∨ entry.eligibleCount = 0 ∨
      entry.requiredCount ≠ entry.eligibleCount / 2 + 1) := by
    rw [not_or, not_or, not_not]
    exact ⟨by omega, h.nonempty, h.required⟩
  simp only [contractVoteAccept, entryVoteState, if_neg hguard, h.view, haddress]
  simp only [hid, ne_eq, not_true_eq_false, if_false]
  cases helig : contractVoteEligible entry.canonicalDraft actor with
  | error status => simp
  | ok _ =>
      have hactor := (h.eligible_iff.mp helig).1
      simp only [hactor]
      by_cases hmem : (⟨entry.contractId, actor⟩ : VoteKey) ∈ votes
      · simp [hmem]
      · have hroom := (hvotes.snoc helig hmem).length_le h
        rw [List.length_append, List.length_singleton] at hroom
        have hbelow : votes.length ≠ entry.eligibleCount := by omega
        simp only [hmem, hbelow, if_false, Except.ok.injEq, true_and, not_false_eq_true]
        exact eq_comm

/-- What an accepted vote needs: an open ballot, the next sequence, and an approver that
has not voted. -/
structure VoteAccepted (entry : ContractStateEntry) (votes : List VoteKey)
    (expectedSequence : UInt64) (actor : Octets 32) : Prop where
  ballot : entry.current.state = .review ∨ entry.current.state = .approvals
  bounded : entry.current.sequence ≠ 0xffffffffffffffff
  next : expectedSequence = entry.current.sequence + 1
  eligible : contractVoteEligible entry.canonicalDraft actor = .ok ()
  fresh : (⟨entry.contractId, actor⟩ : VoteKey) ∉ votes

/-- The state a contract is in after a vote that makes the given count. -/
def stateAfterVote (entry : ContractStateEntry) (count : ℕ) : ContractState :=
  if count ≥ entry.requiredCount then .attestation else .approvals

theorem contractVoteApply_eq_ok_iff (h : entry.From draft participants)
    {votes : List VoteKey} (hvotes : VotesCast entry votes) {expectedSequence : UInt64}
    {actor : Octets 32} {r : ContractVoteState × Contract} :
    contractVoteApply entry.current expectedSequence entry.canonicalDraft actor
        (entryVoteState entry votes) = .ok r ↔
      VoteAccepted entry votes expectedSequence actor ∧
      r = (entryVoteState entry (votes ++ [⟨entry.contractId, actor⟩]),
        entry.current.moveTo expectedSequence (stateAfterVote entry (votes.length + 1))) := by
  simp only [contractVoteApply]
  by_cases hballot : entry.current.state ≠ .review ∧ entry.current.state ≠ .approvals
  · rw [if_pos hballot]
    constructor
    · intro hr
      cases hr
    · rintro ⟨haccepted, -⟩
      rcases haccepted.ballot with hstate | hstate
      · exact absurd hstate hballot.1
      · exact absurd hstate hballot.2
  rw [if_neg hballot]
  by_cases hsequence : entry.current.sequence = 0xffffffffffffffff ∨
      expectedSequence ≠ entry.current.sequence + 1
  · rw [if_pos hsequence]
    constructor
    · intro hr
      cases hr
    · rintro ⟨haccepted, -⟩
      exact absurd hsequence (by
        rw [not_or, not_not]
        exact ⟨haccepted.bounded, haccepted.next⟩)
  rw [if_neg hsequence]
  rw [not_or, not_not] at hsequence
  have hopen : entry.current.state = .review ∨ entry.current.state = .approvals := by
    rw [not_and_or, not_not, not_not] at hballot
    exact hballot
  constructor
  · intro hr
    split at hr
    · cases hr
    next accepted reached haccept =>
    obtain ⟨⟨helig, hfresh⟩, hpair⟩ := (contractVoteAccept_eq_ok_iff h hvotes).mp haccept
    obtain ⟨rfl, rfl⟩ := Prod.mk.inj hpair
    obtain rfl := Except.ok.inj hr
    refine ⟨⟨hopen, hsequence.1, hsequence.2, helig, hfresh⟩, ?_⟩
    simp [Contract.moveTo, stateAfterVote]
  · rintro ⟨haccepted, rfl⟩
    rw [(contractVoteAccept_eq_ok_iff h hvotes).mpr ⟨⟨haccepted.eligible, haccepted.fresh⟩, rfl⟩]
    simp [Contract.moveTo, stateAfterVote]

end Entry

/-! ## The operations on an entry -/

section Operation

variable {state state' : ContractStateStore} {index : ℕ} {entry : ContractStateEntry}
  {draft : Contract} {participants : List ContractParticipant}

omit [Primitives] in
/-- An action moves a contract along the transition table, at the next sequence. -/
theorem contractApplyAction_eq_ok_iff {current next : Contract} (hversion : current.version = 1)
    {action : ContractAction} {expectedSequence : UInt64} :
    contractApplyAction current action expectedSequence = .ok next ↔
      current.sequence ≠ 0xffffffffffffffff ∧ expectedSequence = current.sequence + 1 ∧
      ∃ moved, contractTransition current.state action = some moved ∧
        next = current.moveTo expectedSequence moved := by
  simp only [contractApplyAction, if_neg (not_not.mpr hversion)]
  by_cases hsequence : current.sequence = 0xffffffffffffffff ∨
      expectedSequence ≠ current.sequence + 1
  · rw [if_pos hsequence]
    constructor
    · intro h
      cases h
    · rintro ⟨hbounded, hnext, -⟩
      exact absurd hsequence (by
        rw [not_or, not_not]
        exact ⟨hbounded, hnext⟩)
  · rw [if_neg hsequence]
    rw [not_or, not_not] at hsequence
    cases htransition : contractTransition current.state action with
    | none => simp
    | some moved =>
        simp only [Except.ok.injEq, Option.some.injEq, exists_eq_left']
        constructor
        · intro h
          exact ⟨hsequence.1, hsequence.2, h.symm⟩
        · exact fun h => h.2.2.symm

/-- The votes an entry has in the vote slots. -/
def entryVotes (slots : ℕ → VoteKey) (entry : ContractStateEntry) : List VoteKey :=
  (List.range entry.voteCount).map fun i => slots (entry.voteOffset + i)

omit [Primitives] in
theorem entryVotes_length (slots : ℕ → VoteKey) (entry : ContractStateEntry) :
    (entryVotes slots entry).length = entry.voteCount := by
  rw [entryVotes, List.length_map, List.length_range]

/-- The store with a further vote in one of its entries. -/
def recordVote (state : ContractStateStore) (index : ℕ) (entry : ContractStateEntry)
    (expectedSequence : UInt64) (actor : Octets 32) : ContractStateStore :=
  { state with
    entries := state.entries.set index { entry with
      current := entry.current.moveTo expectedSequence
        (stateAfterVote entry (entry.voteCount + 1))
      voteCount := entry.voteCount + 1 }
    votes := fun slot =>
      if slot = entry.voteOffset + entry.voteCount then ⟨entry.contractId, actor⟩
      else state.votes slot }

/-- A vote is made on the current contract, if the source is that of the entry. -/
theorem contractStateApplyVote_eq (hentry : state.entries[index]? = some entry)
    (canonicalCurrent : Bytes) (expectedSequence : UInt64) (actor : Octets 32) :
    contractStateApplyVote state index canonicalCurrent expectedSequence actor =
      match contractSource entry (some canonicalCurrent) with
      | .error status => .error status
      | .ok current =>
          match contractVoteApply current expectedSequence entry.canonicalDraft actor
              (entryVoteState entry (entryVotes state.votes entry)) with
          | .error status => .error status
          | .ok (votes, next) => .ok { state with
              entries := state.entries.set index { entry with
                current := keepSpans entry next
                voteCount := votes.accepted.length }
              votes := fun slot =>
                if slot = entry.voteOffset + entry.voteCount then
                  (votes.accepted.getLast?).getD (state.votes slot)
                else state.votes slot } := by
  simp only [contractStateApplyVote, hentry, contractSource]
  cases contractLineageValidate entry.canonicalDraft canonicalCurrent with
  | error status => rfl
  | ok _ =>
      cases contractDecode canonicalCurrent with
      | error status => rfl
      | ok current =>
          by_cases hplace : current.sequence ≠ entry.current.sequence ∨
              current.state ≠ entry.current.state
          · simp only [if_pos hplace]
          · simp only [if_neg hplace]
            rfl

/-- A vote names the current contract and is accepted into the entry's region. -/
theorem contractStateApplyVote_eq_ok_iff (hentry : state.entries[index]? = some entry)
    (h : entry.From draft participants) (hvotes : VotesCast entry (entryVotes state.votes entry))
    {canonicalCurrent : Bytes} {expectedSequence : UInt64} {actor : Octets 32} :
    contractStateApplyVote state index canonicalCurrent expectedSequence actor = .ok state' ↔
      contractDecode canonicalCurrent = .ok entry.current ∧
      VoteAccepted entry (entryVotes state.votes entry) expectedSequence actor ∧
      state' = recordVote state index entry expectedSequence actor := by
  rw [contractStateApplyVote_eq hentry]
  constructor
  · intro hok
    split at hok
    · cases hok
    next current hcurrent =>
    obtain ⟨hdecode, rfl⟩ := h.source_eq_ok_iff.mp hcurrent
    split at hok
    · cases hok
    next votes next happly =>
    obtain ⟨haccepted, hpair⟩ := (contractVoteApply_eq_ok_iff h hvotes).mp happly
    obtain ⟨rfl, rfl⟩ := Prod.mk.inj hpair
    obtain rfl := Except.ok.inj hok
    refine ⟨hdecode, haccepted, ?_⟩
    simp [recordVote, entryVoteState, keepSpans, Contract.moveTo, entryVotes_length]
  · rintro ⟨hdecode, haccepted, rfl⟩
    rw [h.source_eq_ok_iff.mpr ⟨hdecode, rfl⟩]
    simp only
    rw [(contractVoteApply_eq_ok_iff h hvotes).mpr ⟨haccepted, rfl⟩]
    simp [recordVote, entryVoteState, keepSpans, Contract.moveTo, entryVotes_length]

/-- The vote set of a draft: its approvers are distinct and there is one. -/
theorem contractVoteStateInitialize_eq_ok {canonicalDraft : Bytes} {capacity : ℕ}
    {votes : ContractVoteState}
    (hview : draftView canonicalDraft = .ok draft)
    (h : contractVoteStateInitialize canonicalDraft capacity = .ok votes) :
    ∃ participants, contractParticipants draft = .ok participants ∧
      (approversOf participants).Nodup ∧
      votes.eligibleCount = (approversOf participants).length ∧ votes.eligibleCount ≠ 0 ∧
      votes.requiredCount = votes.eligibleCount / 2 + 1 := by
  simp only [contractVoteStateInitialize, hview] at h
  split at h
  · cases h
  split at h
  · cases h
  next participants hparticipants =>
  split at h
  · cases h
  · cases h
  next eligible hne heligible =>
  obtain rfl := Except.ok.inj h
  obtain ⟨hlength, hnodup, -⟩ := countApprovers_eq_some heligible
  exact ⟨participants, hparticipants, hnodup, hlength.symm, hne, rfl⟩

/-- A registration appends an entry with the draft and takes a fresh region into use. -/
theorem contractStateRegister_eq_ok {canonicalDraft : Bytes}
    (h : contractStateRegister state canonicalDraft = .ok (state', index)) :
    ∃ entry draft participants, entry.From draft participants ∧
      entry.canonicalDraft = canonicalDraft ∧ entry.current = draft ∧
      entry.voteOffset = state.voteCount ∧ entry.voteCount = 0 ∧
      entry.contractId ∉ state.entries.map ContractStateEntry.contractId ∧
      state.voteCount + draft.participantCount ≤ state.voteCapacity ∧
      state' = { state with
        entries := state.entries ++ [entry]
        voteCount := state.voteCount + draft.participantCount } := by
  simp only [contractStateRegister] at h
  split at h
  · cases h
  next hbounds =>
  split at h
  · cases h
  next draft hview =>
  split at h
  · cases h
  next address haddress =>
  split at h
  · cases h
  next hfind =>
  split at h
  · cases h
  split at h
  · cases h
  next hroom =>
  split at h
  · cases h
  next votes hvotes =>
  obtain ⟨participants, hlisted, hnodup, heligible, hnonempty, hrequired⟩ :=
    contractVoteStateInitialize_eq_ok hview hvotes
  obtain ⟨rfl, -⟩ := Prod.mk.inj (Except.ok.inj h)
  rw [not_or] at hbounds
  refine ⟨_, draft, participants, ⟨hview, rfl, ⟨address, haddress, rfl⟩, hlisted, hnodup,
    heligible, hnonempty, hrequired⟩, rfl, rfl, rfl, rfl, ?_, by omega, rfl⟩
  intro hmem
  obtain ⟨entry, hentry, hid⟩ := List.mem_map.mp hmem
  simp only [contractStateFind, if_neg hbounds.1] at hfind
  split at hfind
  · cases hfind
  next hnone =>
  exact absurd hid (by simpa using List.findIdx?_eq_none_iff.mp hnone entry hentry)

end Operation

end StnChain
