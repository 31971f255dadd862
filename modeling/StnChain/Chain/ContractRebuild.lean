import StnChain.Chain.ContractRun
import StnChain.Contract.Accepted
import StnChain.Support.TwinReplay

/-!
# The rebuild of a contract and the store

A history of actions is accepted one after another by the store, which counts votes up to
a majority, and by the rebuild, where each approval moves the contract along the
transition table.  `contract_rebuild_agrees_iff` says for which histories the two agree.
-/

namespace StnChain

section

variable [Primitives]

/-! ## The incremental path -/

/-- The call an accepted action makes on the store. -/
def ContractAcceptedAction.call (index : ℕ) (entry : ContractAcceptedAction) : ContractCall :=
  if entry.action = .approve then
    .vote index entry.canonicalContract entry.sequence entry.actor
  else .act index (some entry.canonicalContract) entry.action entry.sequence

/-- The store after a history of actions accepted one after another. -/
def contractApplyHistory (index : ℕ) (state : ContractStateStore)
    (history : List ContractAcceptedAction) : Except ContractStatus ContractStateStore :=
  history.foldlM (fun state entry => contractPerform state (entry.call index)) state

/-! ## Where the two paths agree -/

/-- The rebuilt contract is at the state and sequence of the entry, with one approval for
each vote accepted since the entry had `start` votes. -/
def SameOutcome (index start : ℕ) (state : ContractStateStore)
    (working : ContractApprovalState × Contract) : Prop :=
  ∃ entry, state.entries[index]? = some entry ∧ working.2.state = entry.current.state ∧
    working.2.sequence = entry.current.sequence ∧
    start + working.1.accepted.length = entry.voteCount

/-- The rebuild accepts a history if the store does, with the same outcome, and rejects it
if the store does. -/
def ContractRebuildAgrees (state : ContractStateStore) (index : ℕ) (entry : ContractStateEntry)
    (approvals : ContractApprovalState) (history : List ContractAcceptedAction) : Prop :=
  TwinReplay.Matched (SameOutcome index entry.voteCount)
    (contractApplyHistory index state history)
    (contractRebuildAcceptedState entry.current history approvals)

/-- An approval by a canonical key that names the current contract, open to votes, and the
next sequence. -/
structure ApprovalPresented (entry : ContractStateEntry) (action : ContractAcceptedAction) :
    Prop where
  approve : action.action = .approve
  bound : contractDecode action.canonicalContract = .ok entry.current
  ballot : entry.current.state = .review ∨ entry.current.state = .approvals
  bounded : entry.current.sequence ≠ 0xffffffffffffffff
  next : action.sequence = entry.current.sequence + 1
  key : identityDerive action.actor = some action.actor

/-- The actor of an approval is an approver of the draft that has not voted. -/
def FreshApprover (state : ContractStateStore) (entry : ContractStateEntry)
    (actor : Octets 32) : Prop :=
  contractVoteEligible entry.canonicalDraft actor = .ok () ∧
    (⟨entry.contractId, actor⟩ : VoteKey) ∉ entryVotes state.votes entry

/-- An approval that the paths treat alike: its actor is a fresh approver exactly when an
approval can be taken, up to `limit` votes, and its vote makes a majority in `APPROVALS`
and none in `REVIEW`. -/
structure ApprovalAlike (state : ContractStateStore) (entry : ContractStateEntry) (limit : ℕ)
    (action : ContractAcceptedAction) : Prop where
  taken : FreshApprover state entry action.actor ↔
    (∃ address, contractAddress action.canonicalContract = .ok address) ∧
      entry.voteCount < limit
  review : FreshApprover state entry action.actor → entry.current.state = .review →
    entry.voteCount + 1 < entry.requiredCount
  approvals : FreshApprover state entry action.actor → entry.current.state = .approvals →
    entry.requiredCount ≤ entry.voteCount + 1

section Agree

variable {state : ContractStateStore} {index start : ℕ} {entry : ContractStateEntry}
  {approvals : ContractApprovalState} {action : ContractAcceptedAction}

omit [Primitives] in
theorem getElem?_set_of_some {α : Type} {l : List α} {i : ℕ} {a : α} (h : l[i]? = some a)
    (b : α) : (l.set i b)[i]? = some b := by
  obtain ⟨hi, -⟩ := List.getElem?_eq_some_iff.mp h
  exact List.getElem?_set_self hi

/-- The paths treat every action alike that is no approval. -/
theorem act_matched (hsound : ContractStoreSound state)
    (hentry : state.entries[index]? = some entry)
    (hcount : start + approvals.accepted.length = entry.voteCount)
    (haction : action.action ≠ .approve) :
    TwinReplay.Matched (SameOutcome index start) (contractPerform state (action.call index))
      (contractRebuildStep (approvals, entry.current) action) := by
  obtain ⟨draft, participants, hfrom⟩ := (hsound.entries entry (List.mem_of_getElem? hentry)).origin
  have hform := hfrom.decoded
  rw [ContractAcceptedAction.call, if_neg haction]
  cases htransition : contractTransition entry.current.state action.action with
  | none =>
      apply TwinReplay.matched_of_none
      · intro state' hok
        obtain ⟨-, -, -, -, moved, hmoved, -⟩ := (contractPerform_act_eq_ok_iff hentry hfrom).mp hok
        rw [htransition] at hmoved
        cases hmoved
      · intro working hok
        obtain ⟨-, -, -, moved, hmoved, -⟩ :=
          (contractRebuildStep_act_eq_ok_iff hform haction).mp hok
        rw [htransition] at hmoved
        cases hmoved
  | some moved =>
      rw [TwinReplay.matched_iff
        (P := contractDecode action.canonicalContract = .ok entry.current ∧
          entry.current.sequence ≠ 0xffffffffffffffff ∧
          action.sequence = entry.current.sequence + 1)
        (Q := contractDecode action.canonicalContract = .ok entry.current ∧
          entry.current.sequence ≠ 0xffffffffffffffff ∧
          action.sequence = entry.current.sequence + 1)
        (s := setCurrent state index entry (entry.current.moveTo action.sequence moved))
        (t := (approvals, entry.current.moveTo action.sequence moved))]
      · exact ⟨Iff.rfl, fun _ => ⟨_, getElem?_set_of_some hentry _, rfl, rfl, hcount⟩⟩
      · intro state'
        rw [contractPerform_act_eq_ok_iff hentry hfrom]
        simp [htransition, haction, and_assoc]
      · intro working
        rw [contractRebuildStep_act_eq_ok_iff hform haction]
        simp [htransition, and_assoc]

/-- An approval is accepted by neither path unless it is presented. -/
theorem presented_of_vote (hfrom : ∃ draft participants, entry.From draft participants)
    (haction : action.action = .approve)
    (hdecode : contractDecode action.canonicalContract = .ok entry.current)
    (haccepted : VoteAccepted entry (entryVotes state.votes entry) action.sequence action.actor) :
    ApprovalPresented entry action := by
  obtain ⟨draft, participants, hfrom⟩ := hfrom
  exact ⟨haction, hdecode, haccepted.ballot, haccepted.bounded, haccepted.next,
    (hfrom.eligible_iff.mp haccepted.eligible).1⟩

omit [Primitives] in
/-- Where a presented approval moves the rebuilt contract. -/
theorem transition_of_ballot {current : ContractState}
    (h : current = .review ∨ current = .approvals) :
    contractTransition current .approve =
      some (if current = .review then .approvals else .attestation) := by
  rcases h with rfl | rfl <;> rfl

omit [Primitives] in
theorem ballot_of_transition {current moved : ContractState}
    (h : contractTransition current .approve = some moved) :
    current = .review ∨ current = .approvals := by
  cases current <;> first | exact Or.inl rfl | exact Or.inr rfl | cases h

omit [Primitives] in
/-- A recorded vote has the outcome of a taken approval iff both move the contract alike. -/
theorem sameOutcome_recordVote_iff (hentry : state.entries[index]? = some entry)
    (hcount : start + approvals.accepted.length = entry.voteCount) {sequence : UInt64}
    {actor : Octets 32} {key : ApprovalKey} {moved : ContractState} :
    SameOutcome index start (recordVote state index entry sequence actor)
        ({ approvals with accepted := approvals.accepted ++ [key] },
          entry.current.moveTo sequence moved) ↔
      moved = stateAfterVote entry (entry.voteCount + 1) := by
  have hset := getElem?_set_of_some hentry { entry with
    current := entry.current.moveTo sequence (stateAfterVote entry (entry.voteCount + 1))
    voteCount := entry.voteCount + 1 }
  constructor
  · rintro ⟨entry', hentry', hstate, -, -⟩
    obtain rfl := Option.some.inj (hset.symm.trans hentry')
    exact hstate
  · intro hmoved
    refine ⟨_, hset, hmoved, rfl, ?_⟩
    rw [List.length_append, List.length_singleton, ← Nat.add_assoc, hcount]

omit [Primitives] in
/-- Both moves agree where the vote makes a majority in `APPROVALS` and none in `REVIEW`. -/
theorem moves_alike_iff (hballot : entry.current.state = .review ∨
      entry.current.state = .approvals) {count : ℕ} :
    (if entry.current.state = .review then ContractState.approvals else .attestation) =
        stateAfterVote entry count ↔
      (entry.current.state = .review → count < entry.requiredCount) ∧
        (entry.current.state = .approvals → entry.requiredCount ≤ count) := by
  rw [stateAfterVote]
  by_cases hmajority : entry.requiredCount ≤ count
  · rcases hballot with hstate | hstate <;> simp [hstate, hmajority]
  · rcases hballot with hstate | hstate
    · simp [hstate, Nat.lt_of_not_le hmajority, hmajority]
    · simp [hstate, hmajority]

/-- The paths treat an approval alike. -/
theorem approve_matched_iff (hsound : ContractStoreSound state)
    (hentry : state.entries[index]? = some entry)
    (hearlier : ApprovalsEarlier approvals entry.current.sequence)
    (hcount : start + approvals.accepted.length = entry.voteCount)
    (haction : action.action = .approve) :
    TwinReplay.Matched (SameOutcome index start) (contractPerform state (action.call index))
        (contractRebuildStep (approvals, entry.current) action) ↔
      (ApprovalPresented entry action →
        ApprovalAlike state entry (start + approvals.acceptedCapacity) action) := by
  have hentries := hsound.entries entry (List.mem_of_getElem? hentry)
  obtain ⟨draft, participants, hfrom⟩ := hentries.origin
  have hform := hfrom.decoded
  rw [ContractAcceptedAction.call, if_pos haction]
  have hvote : ∀ state', contractPerform state
      (.vote index action.canonicalContract action.sequence action.actor) = .ok state' ↔
      (ApprovalPresented entry action ∧ FreshApprover state entry action.actor) ∧
        state' = recordVote state index entry action.sequence action.actor := by
    intro state'
    rw [contractPerform, contractStateApplyVote_eq_ok_iff hentry hfrom hentries.votes]
    constructor
    · rintro ⟨hdecode, haccepted, rfl⟩
      exact ⟨⟨presented_of_vote hentries.origin haction hdecode haccepted,
        haccepted.eligible, haccepted.fresh⟩, rfl⟩
    · rintro ⟨⟨hpresented, hfresh⟩, rfl⟩
      exact ⟨hpresented.bound, ⟨hpresented.ballot, hpresented.bounded, hpresented.next,
        hfresh.1, hfresh.2⟩, rfl⟩
  cases haddress : contractAddress action.canonicalContract with
  | error status =>
      rw [TwinReplay.matched_iff (Q := False) (t := (approvals, entry.current)) hvote]
      · constructor
        · rintro ⟨hnone, -⟩ hpresented
          have hstale := fun hfresh => hnone.mp ⟨hpresented, hfresh⟩
          refine ⟨iff_of_false hstale ?_, fun h => (hstale h).elim, fun h => (hstale h).elim⟩
          rintro ⟨⟨address, hnever⟩, -⟩
          rw [haddress] at hnever
          cases hnever
        · intro halike
          have hstale : ¬ (ApprovalPresented entry action ∧
              FreshApprover state entry action.actor) := by
            rintro ⟨hpresented, hfresh⟩
            obtain ⟨⟨address, hnever⟩, -⟩ := (halike hpresented).taken.mp hfresh
            rw [haddress] at hnever
            cases hnever
          exact ⟨iff_of_false hstale not_false, fun h => absurd h hstale⟩
      · intro working
        exact ⟨fun hok => absurd hok (contractRebuildStep_no_address haction haddress working),
          fun h => h.1.elim⟩
  | ok address =>
      have htake : ∀ working, contractRebuildStep (approvals, entry.current) action =
          .ok working ↔
          (ApprovalPresented entry action ∧
            entry.voteCount < start + approvals.acceptedCapacity) ∧
          working = ({ approvals with accepted := approvals.accepted ++
            [⟨address.identifier, action.sequence, action.actor⟩] },
            entry.current.moveTo action.sequence
              (if entry.current.state = .review then .approvals else .attestation)) := by
        intro working
        rw [contractRebuildStep_approve_eq_ok_iff hform hearlier haction haddress]
        constructor
        · rintro ⟨hdecode, hbounded, hnext, hkey, hspare, moved, htransition, rfl⟩
          have hballot := ballot_of_transition htransition
          rw [transition_of_ballot hballot] at htransition
          obtain rfl := Option.some.inj htransition
          exact ⟨⟨⟨haction, hdecode, hballot, hbounded, hnext, hkey⟩, by omega⟩, rfl⟩
        · rintro ⟨⟨hpresented, hspare⟩, rfl⟩
          exact ⟨hpresented.bound, hpresented.bounded, hpresented.next, hpresented.key,
            by omega, _, transition_of_ballot hpresented.ballot, rfl⟩
      rw [TwinReplay.matched_iff hvote htake, sameOutcome_recordVote_iff hentry hcount]
      constructor
      · rintro ⟨htaken, hmoves⟩ hpresented
        have hmajority := fun hfresh =>
          (moves_alike_iff hpresented.ballot).mp (hmoves ⟨hpresented, hfresh⟩)
        refine ⟨?_, fun hfresh => (hmajority hfresh).1, fun hfresh => (hmajority hfresh).2⟩
        constructor
        · exact fun hfresh => ⟨⟨address, haddress⟩, (htaken.mp ⟨hpresented, hfresh⟩).2⟩
        · exact fun hspare => (htaken.mpr ⟨hpresented, hspare.2⟩).2
      · intro halike
        refine ⟨⟨?_, ?_⟩, ?_⟩
        · rintro ⟨hpresented, hfresh⟩
          exact ⟨hpresented, ((halike hpresented).taken.mp hfresh).2⟩
        · rintro ⟨hpresented, hspare⟩
          exact ⟨hpresented, (halike hpresented).taken.mpr ⟨⟨address, haddress⟩, hspare⟩⟩
        · rintro ⟨hpresented, hfresh⟩
          exact (moves_alike_iff hpresented.ballot).mpr
            ⟨(halike hpresented).review hfresh, (halike hpresented).approvals hfresh⟩

/-- A history applied to a sound store leaves it sound and keeps its entries. -/
theorem contractApplyHistory_sound (hsound : ContractStoreSound state)
    {history : List ContractAcceptedAction} {state' : ContractStateStore}
    (h : contractApplyHistory index state history = .ok state') :
    ContractStoreSound state' ∧ ContractsKept state state' := by
  refine TwinReplay.foldlM_invariant (I := fun s => ContractStoreSound s ∧
    ContractsKept state s) ?_ ⟨hsound, ContractsKept.refl state⟩ h
  intro s entry s' hs hstep
  obtain ⟨hsound', heffect⟩ := contractPerform_sound hs.1 hstep
  exact ⟨hsound', hs.2.trans heffect.kept⟩

omit [Primitives] in
/-- The rebuilt contract is the entry's where both paths have the same outcome. -/
theorem SameOutcome.current_eq {state' : ContractStateStore} {capacity : ℕ}
    {working : ContractApprovalState × Contract}
    (h : SameOutcome index start state' working) (hkept : ContractsKept state state')
    (hentry : state.entries[index]? = some entry)
    (hholds : RebuildHolds entry.current capacity working) :
    ∃ entry', state'.entries[index]? = some entry' ∧ working.2 = entry'.current ∧
      start + working.1.accepted.length = entry'.voteCount := by
  obtain ⟨entry', hentry', hstate, hsequence, hcount⟩ := h
  obtain ⟨entry'', hentry'', hsame⟩ := hkept index entry hentry
  obtain rfl := Option.some.inj (hentry'.symm.trans hentry'')
  refine ⟨entry', hentry', ?_, hcount⟩
  rw [hholds.contract, hsame.contract, hstate, hsequence]

/-- For every registered contract and every history, the rebuild agrees with the store on
each prefix of the history iff each approval the store's path reaches is one that both
treat alike. -/
theorem contract_rebuild_agrees_iff {entryCapacity voteCapacity : ℕ} {calls : List ContractCall}
    (hentry : (contractRun (contractStateInitialize entryCapacity voteCapacity)
      calls).entries[index]? = some entry)
    (hroom : approvals.accepted.length ≤ approvals.acceptedCapacity)
    (history : List ContractAcceptedAction) :
    (∀ past, past <+: history → ContractRebuildAgrees
      (contractRun (contractStateInitialize entryCapacity voteCapacity) calls) index entry
      approvals past) ↔
    ∀ past action later, history = past ++ action :: later → ∀ state entry',
      contractApplyHistory index
        (contractRun (contractStateInitialize entryCapacity voteCapacity) calls) past =
          .ok state →
      state.entries[index]? = some entry' → ApprovalPresented entry' action →
        ApprovalAlike state entry' (entry.voteCount + approvals.acceptedCapacity) action := by
  have hsound := (contractRun_sound
    (contractStateInitialize_sound entryCapacity voteCapacity) calls).1
  generalize contractRun (contractStateInitialize entryCapacity voteCapacity) calls = store
    at hentry hsound
  obtain ⟨draft, participants, hfrom⟩ :=
    (hsound.entries entry (List.mem_of_getElem? hentry)).origin
  have hstart : RebuildHolds entry.current approvals.acceptedCapacity
      ({ approvals with accepted := [] }, entry.current) :=
    ⟨rfl, ⟨Nat.zero_le _, fun _ hkey => absurd hkey List.not_mem_nil⟩, rfl⟩
  have hsame : SameOutcome index entry.voteCount store
      ({ approvals with accepted := [] }, entry.current) := ⟨entry, hentry, rfl, rfl, rfl⟩
  have hagrees : ∀ past, ContractRebuildAgrees store index entry approvals past ↔
      TwinReplay.Agree (fun state entry => contractPerform state (entry.call index))
        contractRebuildStep (SameOutcome index entry.voteCount) store
        ({ approvals with accepted := [] }, entry.current) past := by
    intro past
    rw [ContractRebuildAgrees, contractRebuildAcceptedState, if_neg (not_lt.mpr hroom)]
    rfl
  have hmatched : ∀ past action state working,
      contractApplyHistory index store past = .ok state →
      past.foldlM contractRebuildStep ({ approvals with accepted := [] }, entry.current) =
        .ok working →
      SameOutcome index entry.voteCount state working →
      (TwinReplay.Matched (SameOutcome index entry.voteCount)
          (contractPerform state (action.call index)) (contractRebuildStep working action) ↔
        ∀ entry', state.entries[index]? = some entry' → ApprovalPresented entry' action →
          ApprovalAlike state entry' (entry.voteCount + approvals.acceptedCapacity) action) := by
    intro past action state working hpast hrebuilt houtcome
    obtain ⟨hsound', hkept⟩ := contractApplyHistory_sound hsound hpast
    have hholds : RebuildHolds entry.current approvals.acceptedCapacity working :=
      TwinReplay.foldlM_invariant
        (fun _ _ _ h hstep => contractRebuildStep_holds hfrom.decoded h hstep) hstart hrebuilt
    obtain ⟨entry', hentry', hcurrent, hcount⟩ := houtcome.current_eq hkept hentry hholds
    obtain ⟨taken, current⟩ := working
    obtain rfl : current = entry'.current := hcurrent
    rw [← hholds.capacity]
    have hunique : ∀ entry'', state.entries[index]? = some entry'' → entry'' = entry' :=
      fun entry'' h => Option.some.inj (h.symm.trans hentry')
    by_cases haction : action.action = .approve
    · rw [approve_matched_iff hsound' hentry' hholds.earlier hcount haction]
      constructor
      · intro halike entry'' hentry''
        rw [hunique entry'' hentry'']
        exact halike
      · exact fun halike => halike entry' hentry'
    · constructor
      · exact fun _ _ _ hpresented => absurd hpresented.approve haction
      · exact fun _ => act_matched hsound' hentry' hcount haction
  simp only [hagrees]
  constructor
  · rintro h past action later rfl state entry' hpast hentry' hpresented
    have hagree := h past ⟨action :: later, rfl⟩
    rw [TwinReplay.Agree] at hagree
    cases hrebuilt : past.foldlM contractRebuildStep
        ({ approvals with accepted := [] }, entry.current) with
    | error status =>
        rw [contractApplyHistory] at hpast
        rw [hpast, hrebuilt] at hagree
        exact hagree.elim
    | ok working =>
        have houtcome : SameOutcome index entry.voteCount state working := by
          rw [contractApplyHistory] at hpast
          rwa [hpast, hrebuilt] at hagree
        have hstep := (TwinReplay.agree_prefixes_iff hsame).mp h past action later rfl state
          working hpast hrebuilt houtcome
        exact (hmatched past action state working hpast hrebuilt houtcome).mp hstep entry'
          hentry' hpresented
  · intro h
    rw [TwinReplay.agree_prefixes_iff hsame]
    intro past action later hsplit state working hpast hrebuilt houtcome
    exact (hmatched past action state working hpast hrebuilt houtcome).mpr
      fun entry' hentry' => h past action later hsplit state entry' hpast hentry'

end Agree

end

section Sample

attribute [local instance] Sample.createPrimitives

namespace Sample

/-- The store with the draft of one approver in review. -/
def reviewStore : ContractStateStore :=
  contractRun (contractStateInitialize 1 2) reviewCalls

/-- The approval of the only approver. -/
def approval : ContractAcceptedAction where
  action := .approve
  sequence := 3
  canonicalContract := draftAt 2 3
  actor := approverKey

/-- The rejection of the contract in review. -/
def rejection : ContractAcceptedAction where
  action := .reject
  sequence := 3
  canonicalContract := draftAt 2 3
  actor := approverKey

end Sample

open Sample

theorem sample_review_entry : ∃ entry, reviewStore.entries[0]? = some entry ∧
    entry.current.state = .review :=
  Option.map_eq_some_iff.mp (show reviewStore.entries[0]?.map (fun e => e.current.state) =
    some .review by decide +kernel)

/-- The only approver's vote is a majority in the store, and no more than a first approval
in the rebuild. -/
theorem sample_contract_rebuild_differs : ∃ entry, reviewStore.entries[0]? = some entry ∧
    entry.current.state = .review ∧
    ¬ ContractRebuildAgrees reviewStore 0 entry (contractApprovalStateInitialize 1) [approval] := by
  obtain ⟨entry, hentry, hstate⟩ := sample_review_entry
  refine ⟨entry, hentry, hstate, fun hagrees => ?_⟩
  have hvoted : (contractApplyHistory 0 reviewStore [approval]).toOption.map
      (fun state => state.entries[0]?.map fun e => e.current.state) =
      some (some .attestation) := by decide +kernel
  have hrebuilt : reviewStore.entries[0]?.map (fun e => (contractRebuildAcceptedState e.current
      [approval] (contractApprovalStateInitialize 1)).toOption.map fun w => w.2.state) =
      some (some .approvals) := by decide +kernel
  rw [hentry, Option.map_some, Option.some.injEq] at hrebuilt
  rw [ContractRebuildAgrees] at hagrees
  cases hhistory : contractApplyHistory 0 reviewStore [approval] with
  | error status =>
      rw [hhistory] at hvoted
      cases hvoted
  | ok state =>
      cases hworking : contractRebuildAcceptedState entry.current [approval]
          (contractApprovalStateInitialize 1) with
      | error status =>
          rw [hworking] at hrebuilt
          cases hrebuilt
      | ok working =>
          rw [hhistory, hworking] at hagrees
          rw [hhistory] at hvoted
          rw [hworking] at hrebuilt
          obtain ⟨entry', hentry', hsame, -⟩ := hagrees
          have hattested : state.entries[0]?.map (fun e => e.current.state) =
              some .attestation := Option.some.inj hvoted
          have happrovals : working.2.state = .approvals := Option.some.inj hrebuilt
          rw [hentry', Option.map_some, Option.some.injEq, ← hsame, happrovals] at hattested
          cases hattested

/-- The rebuild agrees on the rejection in review. -/
theorem sample_contract_rebuild_agrees : ∃ entry, reviewStore.entries[0]? = some entry ∧
    ∀ past, past <+: [rejection] →
      ContractRebuildAgrees reviewStore 0 entry (contractApprovalStateInitialize 1) past := by
  obtain ⟨entry, hentry, -⟩ := sample_review_entry
  have hroom : (contractApprovalStateInitialize 1).accepted.length ≤
      (contractApprovalStateInitialize 1).acceptedCapacity := Nat.zero_le _
  refine ⟨entry, hentry, (contract_rebuild_agrees_iff hentry hroom [rejection]).mpr ?_⟩
  intro past action later hsplit state entry' _ _ hpresented
  have hmem : action ∈ [rejection] := by
    rw [hsplit]
    exact List.mem_append_right _ List.mem_cons_self
  obtain rfl := List.mem_singleton.mp hmem
  exact absurd hpresented.approve (by decide)

end Sample

end StnChain
