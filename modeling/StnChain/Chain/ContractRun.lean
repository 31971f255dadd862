import StnChain.Chain.ContractAction
import StnChain.Contract.Entries
import StnChain.Support.Regions

/-!
# Runs of the contract store

The store is changed by registrations, by votes and by actions whose result is stored in
an entry.  Votes lie in the region of their entry, come from distinct approvers of its
draft, and a majority of them stands behind every attestation, `contract_store_sound`.
-/

namespace StnChain

section

variable [Primitives]

/-! ## Calls on the store -/

/-- One call on the store: a registration, a vote, or another action whose result is
stored.  An action carries the octets of the current contract, except a creation, which
starts from the contract just registered. -/
inductive ContractCall
  | register (canonicalDraft : Bytes)
  | vote (index : ℕ) (canonicalCurrent : Bytes) (expectedSequence : UInt64) (actor : Octets 32)
  | act (index : ℕ) (canonicalCurrent : Option Bytes) (action : ContractAction)
      (expectedSequence : UInt64)

/-- The store after a call, as `contract_apply_transaction` makes them. -/
def contractPerform (state : ContractStateStore) :
    ContractCall → Except ContractStatus ContractStateStore
  | .register canonicalDraft =>
      match contractStateRegister state canonicalDraft with
      | .error status => .error status
      | .ok (state, _) => .ok state
  | .vote index canonicalCurrent expectedSequence actor =>
      contractStateApplyVote state index canonicalCurrent expectedSequence actor
  | .act index canonicalCurrent action expectedSequence =>
      if action = .approve then .error .action
      else
        match state.entries[index]? with
        | none => .error .argument
        | some entry =>
            match contractSource entry canonicalCurrent with
            | .error status => .error status
            | .ok current =>
                match contractApplyAction current action expectedSequence with
                | .error status => .error status
                | .ok next => .ok (setCurrent state index entry next)

/-- The store after a sequence of calls; a failed call leaves the store as it was. -/
def contractRun (state : ContractStateStore) (calls : List ContractCall) : ContractStateStore :=
  calls.foldl (fun state call =>
    match contractPerform state call with
    | .ok state => state
    | .error _ => state) state

/-! ## The invariant -/

/-- The slots reserved for the votes of an entry. -/
def voteRegion (entry : ContractStateEntry) : Finset ℕ :=
  Regions.region ContractStateEntry.voteOffset (fun e => e.current.participantCount) entry

/-- An entry that comes from its draft, whose votes are of distinct eligible approvers, and
that is attested or executed by a majority of them only. -/
structure ContractEntrySound (slots : ℕ → VoteKey) (entry : ContractStateEntry) : Prop where
  origin : ∃ draft participants, entry.From draft participants
  votes : VotesCast entry (entryVotes slots entry)
  room : entry.voteCount ≤ entry.current.participantCount
  majority : entry.current.state = .attestation ∨ entry.current.state = .executed →
    entry.eligibleCount / 2 + 1 ≤ entry.voteCount

/-- A store whose contracts are distinct, whose vote regions are packed into its slots, and
whose entries are sound. -/
structure ContractStoreSound (state : ContractStateStore) : Prop where
  ids : (state.entries.map ContractStateEntry.contractId).Nodup
  packed : Regions.Packed ContractStateEntry.voteOffset (fun e => e.current.participantCount)
    state.entries state.voteCount
  within : state.voteCount ≤ state.voteCapacity
  entries : ∀ entry ∈ state.entries, ContractEntrySound state.votes entry

section Sound

variable {state state' : ContractStateStore} {index : ℕ} {entry : ContractStateEntry}
  {draft : Contract} {participants : List ContractParticipant}

theorem contractStateInitialize_sound (entryCapacity voteCapacity : ℕ) :
    ContractStoreSound (contractStateInitialize entryCapacity voteCapacity) where
  ids := List.nodup_nil
  packed := Regions.Packed.nil 0
  within := Nat.zero_le _
  entries := fun _ hentry => absurd hentry List.not_mem_nil

/-- There are slots for a vote of every approver. -/
theorem ContractStateEntry.From.eligibleCount_le (h : entry.From draft participants) :
    entry.eligibleCount ≤ entry.current.participantCount := by
  have hlength : participants.length = draft.participantCount := by
    rw [length_of_mapM_eq_ok h.listed, List.length_range]
  have hcount : entry.current.participantCount = draft.participantCount := by
    rw [h.current]
    rfl
  rw [h.eligible, hcount, ← hlength]
  exact approversOf_length_le participants

omit [Primitives] in
/-- The votes of an entry depend on the slots that hold them only. -/
theorem entryVotes_congr {slots slots' : ℕ → VoteKey}
    (h : ∀ slot, entry.voteOffset ≤ slot → slot < entry.voteOffset + entry.voteCount →
      slots slot = slots' slot) : entryVotes slots entry = entryVotes slots' entry := by
  rw [entryVotes, entryVotes]
  apply List.map_congr_left
  intro i hi
  rw [List.mem_range] at hi
  exact h _ (Nat.le_add_right _ _) (by omega)

omit [Primitives] in
/-- A key written behind the votes of an entry is its next vote. -/
theorem entryVotes_snoc (slots : ℕ → VoteKey) (key : VoteKey) (current : Contract) :
    entryVotes (fun slot => if slot = entry.voteOffset + entry.voteCount then key else slots slot)
        { entry with current, voteCount := entry.voteCount + 1 } =
      entryVotes slots entry ++ [key] := by
  simp only [entryVotes]
  rw [List.range_succ, List.map_append, List.map_singleton, if_pos rfl]
  congr 1
  apply List.map_congr_left
  intro i hi
  rw [List.mem_range] at hi
  exact if_neg (by omega)

/-- Replacing an entry of a sound store, and writing only into its region. -/
theorem ContractStoreSound.set (h : ContractStoreSound state)
    (hentry : state.entries[index]? = some entry) {entry' : ContractStateEntry}
    {slots : ℕ → VoteKey} (hid : entry'.contractId = entry.contractId)
    (hoffset : entry'.voteOffset = entry.voteOffset)
    (hcount : entry'.current.participantCount = entry.current.participantCount)
    (hsound : ContractEntrySound slots entry')
    (hframe : ∀ slot, slot ∉ voteRegion entry → slots slot = state.votes slot) :
    ContractStoreSound { state with entries := state.entries.set index entry', votes := slots }
    where
  ids := by
    show ((state.entries.set index entry').map ContractStateEntry.contractId).Nodup
    rw [Regions.map_set_of_eq hentry hid]
    exact h.ids
  packed := h.packed.set hentry hoffset hcount
  within := h.within
  entries := by
    intro other hother
    obtain ⟨j, hj, hother⟩ := List.mem_iff_getElem.mp hother
    by_cases hji : j = index
    · subst hji
      rw [List.getElem_set_self] at hother
      exact hother ▸ hsound
    · rw [List.getElem_set_ne (Ne.symm hji)] at hother
      have hat : state.entries[j]? = some other :=
        List.getElem?_eq_some_iff.mpr ⟨by simpa using hj, hother⟩
      have hdisjoint := h.packed.disjoint hji hat hentry
      have hkept := h.entries other (List.mem_of_getElem? hat)
      have hvotes : entryVotes slots other = entryVotes state.votes other := by
        apply entryVotes_congr
        intro slot hlow hhigh
        apply hframe
        intro hmem
        apply Finset.disjoint_left.mp hdisjoint _ hmem
        rw [Regions.mem_region]
        exact ⟨hlow, by have := hkept.room; omega⟩
      exact ⟨hkept.origin, hvotes ▸ hkept.votes, hkept.room, hkept.majority⟩

/-- A registered entry is in the draft's state, without votes. -/
theorem ContractStoreSound.register (h : ContractStoreSound state) {canonicalDraft : Bytes}
    (hregister : contractStateRegister state canonicalDraft = .ok (state', index)) :
    ContractStoreSound state' := by
  obtain ⟨entry, draft, participants, hfrom, -, hcurrent, hoffset, hcount, hid, hroom, rfl⟩ :=
    contractStateRegister_eq_ok hregister
  have hstate : entry.current.state = .draft := by
    rw [hcurrent]
    exact (draftView_eq_ok_iff.mp hfrom.view).2.1
  constructor
  · show ((state.entries ++ [entry]).map ContractStateEntry.contractId).Nodup
    rw [List.map_append, List.map_singleton]
    exact h.ids.append (List.nodup_singleton _) (List.disjoint_singleton.mpr hid)
  · rw [← hcurrent]
    exact h.packed.snoc hoffset
  · exact hroom
  · intro other hother
    rcases List.mem_append.mp hother with hother | hother
    · exact h.entries other hother
    · obtain rfl := List.mem_singleton.mp hother
      refine ⟨⟨draft, participants, hfrom⟩, ?_, ?_, ?_⟩
      · rw [entryVotes, hcount]
        exact VotesCast.nil other
      · rw [hcount]
        exact Nat.zero_le _
      · intro hattested
        rw [hstate] at hattested
        rcases hattested with hattested | hattested <;> cases hattested

/-- A recorded vote lies in the entry's region, behind the votes already there. -/
theorem ContractStoreSound.recordVote (h : ContractStoreSound state)
    (hentry : state.entries[index]? = some entry) {expectedSequence : UInt64}
    {actor : Octets 32}
    (haccepted : VoteAccepted entry (entryVotes state.votes entry) expectedSequence actor) :
    ContractStoreSound (recordVote state index entry expectedSequence actor) := by
  have hsound := h.entries entry (List.mem_of_getElem? hentry)
  obtain ⟨draft, participants, hfrom⟩ := hsound.origin
  have hcast := hsound.votes.snoc haccepted.eligible haccepted.fresh
  have hcount : entry.voteCount + 1 ≤ entry.eligibleCount := by
    have := hcast.length_le hfrom
    rwa [List.length_append, entryVotes_length, List.length_singleton] at this
  have hroom := hfrom.eligibleCount_le
  refine h.set hentry ?_ ?_ ?_ ?_ ?_
  · rfl
  · rfl
  · rfl
  · refine ⟨⟨draft, participants, hfrom.moveTo _ _ _⟩, ?_, hcount.trans hroom, ?_⟩
    · rw [entryVotes_snoc]
      exact ⟨hcast.cast, hcast.distinct⟩
    · intro hattested
      show entry.eligibleCount / 2 + 1 ≤ entry.voteCount + 1
      rw [← hfrom.required]
      by_contra hbelow
      have hstate : stateAfterVote entry (entry.voteCount + 1) = .approvals := if_neg hbelow
      simp only [Contract.moveTo, hstate] at hattested
      rcases hattested with hattested | hattested <;> cases hattested
  · intro slot hslot
    show (if slot = entry.voteOffset + entry.voteCount then _ else _) = _
    rw [if_neg]
    rintro rfl
    apply hslot
    rw [voteRegion, Regions.mem_region]
    exact ⟨Nat.le_add_right _ _, by omega⟩

omit [Primitives] in
/-- An action other than a vote leads into no attestation and executes attested contracts
only. -/
theorem attested_of_transition {current moved : ContractState} {action : ContractAction}
    (h : contractTransition current action = some moved) (haction : action ≠ .approve)
    (hmoved : moved = .attestation ∨ moved = .executed) : current = .attestation := by
  rcases hmoved with rfl | rfl <;> cases current <;> cases action <;>
    first
    | rfl
    | exact absurd rfl haction
    | cases h

/-- An action other than a vote keeps the votes. -/
theorem ContractStoreSound.setCurrent (h : ContractStoreSound state)
    (hentry : state.entries[index]? = some entry) {action : ContractAction}
    (haction : action ≠ .approve) {expectedSequence : UInt64} {moved : ContractState}
    (htransition : contractTransition entry.current.state action = some moved) :
    ContractStoreSound
      (setCurrent state index entry (entry.current.moveTo expectedSequence moved)) := by
  have hsound := h.entries entry (List.mem_of_getElem? hentry)
  obtain ⟨draft, participants, hfrom⟩ := hsound.origin
  refine h.set hentry ?_ ?_ ?_ ?_ ?_
  · rfl
  · rfl
  · rfl
  · refine ⟨⟨draft, participants, hfrom.moveTo expectedSequence moved entry.voteCount⟩,
      ⟨hsound.votes.cast, hsound.votes.distinct⟩, hsound.room, ?_⟩
    intro hattested
    exact hsound.majority (Or.inl (attested_of_transition htransition haction hattested))
  · exact fun _ _ => rfl

end Sound

section Call

variable {state state' : ContractStateStore} {index : ℕ} {entry : ContractStateEntry}
  {draft : Contract} {participants : List ContractParticipant}

/-- An action other than a vote moves the entry's current contract. -/
theorem contractPerform_act_eq_ok_iff (hentry : state.entries[index]? = some entry)
    (h : entry.From draft participants) {canonicalCurrent : Option Bytes}
    {action : ContractAction} {expectedSequence : UInt64} :
    contractPerform state (.act index canonicalCurrent action expectedSequence) = .ok state' ↔
      action ≠ .approve ∧
      (∀ bytes, canonicalCurrent = some bytes → contractDecode bytes = .ok entry.current) ∧
      entry.current.sequence ≠ 0xffffffffffffffff ∧
      expectedSequence = entry.current.sequence + 1 ∧
      ∃ moved, contractTransition entry.current.state action = some moved ∧
        state' = setCurrent state index entry (entry.current.moveTo expectedSequence moved) := by
  have hversion := h.decoded.version
  have hsource : ∀ current, contractSource entry canonicalCurrent = .ok current ↔
      (∀ bytes, canonicalCurrent = some bytes → contractDecode bytes = .ok entry.current) ∧
        current = entry.current := by
    intro current
    cases canonicalCurrent with
    | none => simp [contractSource, eq_comm]
    | some bytes =>
        rw [h.source_eq_ok_iff]
        simp
  simp only [contractPerform, hentry]
  by_cases haction : action = .approve
  · rw [if_pos haction]
    constructor
    · intro hok
      cases hok
    · exact fun hok => absurd haction hok.1
  rw [if_neg haction]
  constructor
  · intro hok
    split at hok
    · cases hok
    next current hcurrent =>
    obtain ⟨hbytes, rfl⟩ := (hsource _).mp hcurrent
    split at hok
    · cases hok
    next next hnext =>
    obtain ⟨hbounded, hsequence, moved, htransition, rfl⟩ :=
      (contractApplyAction_eq_ok_iff hversion).mp hnext
    exact ⟨haction, hbytes, hbounded, hsequence, moved, htransition, (Except.ok.inj hok).symm⟩
  · rintro ⟨-, hbytes, hbounded, hsequence, moved, htransition, rfl⟩
    rw [(hsource _).mpr ⟨hbytes, rfl⟩]
    simp only
    rw [(contractApplyAction_eq_ok_iff hversion).mpr
      ⟨hbounded, hsequence, moved, htransition, rfl⟩]

/-- How an entry changes: only its contract's sequence and state move, and a closed contract
stays as it is. -/
structure EntryKept (entry entry' : ContractStateEntry) : Prop where
  id : entry'.contractId = entry.contractId
  draft : entry'.canonicalDraft = entry.canonicalDraft
  region : entry'.voteOffset = entry.voteOffset
  contract : entry'.current = entry.current.moveTo entry'.current.sequence entry'.current.state
  closed : entry.current.state = .closed → entry'.current = entry.current

/-- Every entry of a store is kept in another. -/
def ContractsKept (state state' : ContractStateStore) : Prop :=
  ∀ (i : ℕ) (entry : ContractStateEntry), state.entries[i]? = some entry →
    ∃ entry', state'.entries[i]? = some entry' ∧ EntryKept entry entry'

/-- What an accepted call does: a registration appends a draft at sequence 0, and a vote or
an action moves one entry to the next sequence. -/
def CallEffect (state state' : ContractStateStore) : ContractCall → Prop
  | .register canonicalDraft => ∃ entry, state'.entries = state.entries ++ [entry] ∧
      entry.canonicalDraft = canonicalDraft ∧ entry.current.sequence = 0
  | .vote index _ _ _ | .act index _ _ _ => ∃ entry entry',
      state.entries[index]? = some entry ∧ state'.entries = state.entries.set index entry' ∧
      EntryKept entry entry' ∧
      entry'.current.sequence.toNat = entry.current.sequence.toNat + 1

omit [Primitives] in
theorem EntryKept.refl (entry : ContractStateEntry) : EntryKept entry entry :=
  ⟨rfl, rfl, rfl, rfl, fun _ => rfl⟩

omit [Primitives] in
theorem EntryKept.trans {e e' e'' : ContractStateEntry} (h : EntryKept e e')
    (h' : EntryKept e' e'') : EntryKept e e'' where
  id := h'.id.trans h.id
  draft := h'.draft.trans h.draft
  region := h'.region.trans h.region
  contract := by
    rw [h'.contract, h.contract, Contract.moveTo_moveTo]
    rfl
  closed := by
    intro hclosed
    have heq := h.closed hclosed
    rw [h'.closed (heq ▸ hclosed), heq]

omit [Primitives] in
theorem ContractsKept.refl (state : ContractStateStore) : ContractsKept state state :=
  fun _ entry hentry => ⟨entry, hentry, EntryKept.refl entry⟩

omit [Primitives] in
theorem ContractsKept.trans {s s' s'' : ContractStateStore} (h : ContractsKept s s')
    (h' : ContractsKept s' s'') : ContractsKept s s'' := by
  intro i entry hentry
  obtain ⟨entry', hentry', hkept⟩ := h i entry hentry
  obtain ⟨entry'', hentry'', hkept'⟩ := h' i entry' hentry'
  exact ⟨entry'', hentry'', hkept.trans hkept'⟩

omit [Primitives] in
/-- Replacing an entry by one it may change to keeps every entry. -/
theorem ContractsKept.of_set {entry' : ContractStateEntry}
    (hentry : state.entries[index]? = some entry)
    (hentries : state'.entries = state.entries.set index entry')
    (hkept : EntryKept entry entry') : ContractsKept state state' := by
  intro i other hother
  rw [hentries]
  by_cases hi : i = index
  · subst hi
    obtain rfl := Option.some.inj (hentry.symm.trans hother)
    obtain ⟨hlt, -⟩ := List.getElem?_eq_some_iff.mp hentry
    exact ⟨entry', List.getElem?_set_self hlt, hkept⟩
  · exact ⟨other, by rw [List.getElem?_set_ne (Ne.symm hi), hother], EntryKept.refl other⟩

omit [Primitives] in
/-- The effect of a call keeps every entry. -/
theorem CallEffect.kept {call : ContractCall} (h : CallEffect state state' call) :
    ContractsKept state state' := by
  cases call with
  | register canonicalDraft =>
      obtain ⟨entry, hentries, -, -⟩ := h
      intro i other hother
      obtain ⟨hlt, -⟩ := List.getElem?_eq_some_iff.mp hother
      exact ⟨other, by rw [hentries, List.getElem?_append_left hlt, hother],
        EntryKept.refl other⟩
  | vote index canonicalCurrent expectedSequence actor =>
      obtain ⟨entry, entry', hentry, hentries, hkept, -⟩ := h
      exact .of_set hentry hentries hkept
  | act index canonicalCurrent action expectedSequence =>
      obtain ⟨entry, entry', hentry, hentries, hkept, -⟩ := h
      exact .of_set hentry hentries hkept

/-- An accepted call keeps the store sound and has its effect. -/
theorem contractPerform_sound (h : ContractStoreSound state) {call : ContractCall}
    (hcall : contractPerform state call = .ok state') :
    ContractStoreSound state' ∧ CallEffect state state' call := by
  cases call with
  | register canonicalDraft =>
      simp only [contractPerform] at hcall
      split at hcall
      · cases hcall
      next store index hregister =>
      obtain rfl := Except.ok.inj hcall
      refine ⟨h.register hregister, ?_⟩
      obtain ⟨entry, draft, participants, hfrom, hdraft, hcurrent, -, -, -, -, rfl⟩ :=
        contractStateRegister_eq_ok hregister
      refine ⟨entry, rfl, hdraft, ?_⟩
      rw [hcurrent]
      exact (draftView_eq_ok_iff.mp hfrom.view).2.2
  | vote index canonicalCurrent expectedSequence actor =>
      cases hentry : state.entries[index]? with
      | none => simp [contractPerform, contractStateApplyVote, hentry] at hcall
      | some entry =>
          have hsound := h.entries entry (List.mem_of_getElem? hentry)
          obtain ⟨draft, participants, hfrom⟩ := hsound.origin
          obtain ⟨-, haccepted, rfl⟩ :=
            (contractStateApplyVote_eq_ok_iff hentry hfrom hsound.votes).mp hcall
          refine ⟨h.recordVote hentry haccepted, entry, _, hentry, rfl, ?_, ?_⟩
          · refine ⟨rfl, rfl, rfl, rfl, ?_⟩
            intro hclosed
            have hballot := haccepted.ballot
            rw [hclosed] at hballot
            rcases hballot with hballot | hballot <;> cases hballot
          · rw [haccepted.next]
            exact toNat_next haccepted.bounded
  | act index canonicalCurrent action expectedSequence =>
      cases hentry : state.entries[index]? with
      | none =>
          simp only [contractPerform, hentry] at hcall
          split at hcall <;> cases hcall
      | some entry =>
          have hsound := h.entries entry (List.mem_of_getElem? hentry)
          obtain ⟨draft, participants, hfrom⟩ := hsound.origin
          obtain ⟨haction, -, hbounded, hsequence, moved, htransition, rfl⟩ :=
            (contractPerform_act_eq_ok_iff hentry hfrom).mp hcall
          refine ⟨h.setCurrent hentry haction htransition, entry, _, hentry, rfl, ?_, ?_⟩
          · refine ⟨rfl, rfl, rfl, rfl, ?_⟩
            intro hclosed
            rw [hclosed] at htransition
            cases action <;> cases htransition
          · rw [hsequence]
            exact toNat_next hbounded

/-! ## Runs -/

theorem contractRun_cons_of_ok {call : ContractCall} (calls : List ContractCall)
    (h : contractPerform state call = .ok state') :
    contractRun state (call :: calls) = contractRun state' calls := by
  rw [contractRun, List.foldl_cons, h]
  rfl

theorem contractRun_cons_of_error {call : ContractCall} (calls : List ContractCall)
    {status : ContractStatus} (h : contractPerform state call = .error status) :
    contractRun state (call :: calls) = contractRun state calls := by
  rw [contractRun, List.foldl_cons, h]
  rfl

/-- A run keeps the store sound and every entry it starts with. -/
theorem contractRun_sound (h : ContractStoreSound state) (calls : List ContractCall) :
    ContractStoreSound (contractRun state calls) ∧
      ContractsKept state (contractRun state calls) := by
  induction calls generalizing state with
  | nil => exact ⟨h, ContractsKept.refl state⟩
  | cons call calls ih =>
      cases hcall : contractPerform state call with
      | error status =>
          rw [contractRun_cons_of_error calls hcall]
          exact ih h
      | ok state' =>
          rw [contractRun_cons_of_ok calls hcall]
          obtain ⟨hsound, heffect⟩ := contractPerform_sound h hcall
          obtain ⟨hrun, hkept⟩ := ih hsound
          exact ⟨hrun, heffect.kept.trans hkept⟩

omit [Primitives] in
/-- The entry a contract descends from. -/
theorem lineageEntry_eq_some {canonical : Bytes}
    (h : lineageEntry state canonical = some (index, entry)) :
    state.entries[index]? = some entry ∧
      contractLineageValidate entry.canonicalDraft canonical = .ok () := by
  simp only [lineageEntry] at h
  split at h
  · cases h
  next i hi =>
  obtain ⟨found, hfound, hpair⟩ := Option.map_eq_some_iff.mp h
  obtain ⟨rfl, rfl⟩ := Prod.mk.inj hpair
  obtain ⟨hlt, hlineage, -⟩ := List.findIdx?_eq_some_iff_getElem.mp hi
  have hat := (List.getElem?_eq_some_iff.mp hfound).2
  rw [hat] at hlineage
  exact ⟨hfound, by simpa using hlineage⟩

/-- The call a contract transaction makes on an entry. -/
def ContractTransaction.call (action : ContractTransaction) (index : ℕ) : ContractCall :=
  if action.action = .approve then
    .vote index action.canonicalContract action.sequence action.actor
  else .act index (some action.canonicalContract) action.action action.sequence

/-- An accepted contract transaction is one call on the entry its contract descends from. -/
theorem contractApplyTransaction_eq_perform {snapshot snapshot' : ContractSnapshot}
    {lifecycle : LifecycleState} {tx : Transaction} {provider : HashProvider}
    (h : contractApplyTransaction snapshot lifecycle tx provider = .ok snapshot') :
    ∃ action index entry, contractTransactionDecode tx.record = .ok action ∧
      lineageEntry snapshot.state action.canonicalContract = some (index, entry) ∧
      contractAuthorized lifecycle action entry.canonicalDraft provider = .ok () ∧
      contractPerform snapshot.state (action.call index) = .ok snapshot'.state := by
  cases hdecode : contractTransactionDecode tx.record with
  | error status => simp [contractApplyTransaction, hdecode] at h
  | ok action =>
  by_cases hcreate : action.action = .create
  · rw [contractApplyTransaction_create hdecode hcreate] at h
    cases h
  simp only [contractApplyTransaction, hdecode, if_neg hcreate] at h
  split at h
  · cases h
  next index entry hlineage =>
  obtain ⟨hentry, hvalid⟩ := lineageEntry_eq_some hlineage
  split at h
  · cases h
  next current hcurrent =>
  split at h
  · cases h
  next hplace =>
  split at h
  · cases h
  next hauthorized =>
  refine ⟨action, index, entry, rfl, hlineage, hauthorized, ?_⟩
  by_cases happrove : action.action = .approve
  · rw [if_pos happrove] at h
    split at h
    · cases h
    next state hvote =>
    obtain rfl := Except.ok.inj h
    rw [ContractTransaction.call, if_pos happrove]
    exact hvote
  · rw [if_neg happrove] at h
    split at h
    · cases h
    next next hnext =>
    obtain rfl := Except.ok.inj h
    simp only [ContractTransaction.call, contractPerform, if_neg happrove, hentry,
      contractSource, hvalid, hcurrent, if_neg hplace, hnext]

/-- In every run from an empty store the contracts are distinct, their vote regions are
disjoint and inside the vote buffer, and every entry is sound; every accepted call moves
its entry to the next sequence, and every later store keeps what an entry has but its
sequence and state, and keeps closed contracts. -/
theorem contract_store_sound (entryCapacity voteCapacity : ℕ) (calls : List ContractCall) :
    let store := contractRun (contractStateInitialize entryCapacity voteCapacity) calls
    (store.entries.map ContractStateEntry.contractId).Nodup ∧
    (∀ entry ∈ store.entries, voteRegion entry ⊆ Finset.range store.voteCapacity) ∧
    (∀ (i j : ℕ) (a b : ContractStateEntry), i ≠ j → store.entries[i]? = some a →
      store.entries[j]? = some b → Disjoint (voteRegion a) (voteRegion b)) ∧
    (∀ entry ∈ store.entries, ContractEntrySound store.votes entry) ∧
    (∀ call store', contractPerform store call = .ok store' → CallEffect store store' call) ∧
    (∀ later, ContractsKept store (contractRun store later)) := by
  have hsound := (contractRun_sound
    (contractStateInitialize_sound entryCapacity voteCapacity) calls).1
  refine ⟨hsound.ids, ?_, ?_, hsound.entries, ?_, ?_⟩
  · intro entry hentry slot hslot
    rw [voteRegion, Regions.mem_region] at hslot
    have := hsound.packed.within entry hentry
    have := hsound.within
    exact Finset.mem_range.mpr (by omega)
  · exact fun i j a b hij ha hb => hsound.packed.disjoint hij ha hb
  · exact fun call store' hcall => (contractPerform_sound hsound hcall).2
  · exact fun later => (contractRun_sound hsound later).2

end Call

end

section Sample

attribute [local instance] Sample.createPrimitives

namespace Sample

/-- The draft's octets at another sequence and state. -/
def draftAt (sequence state : ℕ) : Bytes :=
  draft.take 8 ++ wireWrite 8 sequence ++ (draft.drop 16).take 8 ++ wireWrite 2 state ++
    draft.drop 26

/-- The key of the draft's approver. -/
def approverKey : Octets 32 :=
  0x0b0b0b0b0b0b0b0b0b0b0b0b0b0b0b0b0b0b0b0b0b0b0b0b0b0b0b0b0b0b0b0b

/-- The draft is registered, issued and brought to review. -/
def reviewCalls : List ContractCall :=
  [.register draft, .act 0 none .create 1, .act 0 (some (draftAt 1 2)) .amend 2]

/-- The approver votes. -/
def ballotCall : ContractCall :=
  .vote 0 (draftAt 2 3) 3 approverKey

end Sample

open Sample

theorem sample_contract_store : ∃ store',
    contractPerform (contractRun (contractStateInitialize 1 2) reviewCalls) ballotCall =
      .ok store' ∧
    CallEffect (contractRun (contractStateInitialize 1 2) reviewCalls) store' ballotCall := by
  obtain ⟨store', hstore'⟩ := exists_ok_of_toBool (show (contractPerform
    (contractRun (contractStateInitialize 1 2) reviewCalls) ballotCall).toBool = true by
    decide +kernel)
  exact ⟨store', hstore',
    (contract_store_sound 1 2 reviewCalls).2.2.2.2.1 ballotCall store' hstore'⟩

end Sample

end StnChain
