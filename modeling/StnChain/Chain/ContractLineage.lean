import StnChain.Chain.ContractRun
import StnChain.Contract.Encoding

/-!
# The contract an action is for

An action names its contract by the octets of the contract's current form alone.  These
octets determine the draft they descend from, and the contracts of a store are distinct, so
at most one entry is meant, `contract_lineage_unique`.
-/

namespace StnChain

/-! ## From the current octets to the draft -/

section Octets

variable {contract : Contract} {capacity total : ℕ}

/-- Octets that decode to one contract are the same. -/
theorem contractDecode_injective {a b : Bytes} (ha : contractDecode a = .ok contract)
    (hb : contractDecode b = .ok contract) : a = b := by
  obtain ⟨ps, hps, -, -, -, hbytes⟩ := contractDecode_eq_bytes ha
  obtain ⟨ps', hps', -, -, -, hbytes'⟩ := contractDecode_eq_bytes hb
  have hsame : ps = ps' := Except.ok.inj (hps.symm.trans hps')
  rw [← hbytes, ← hbytes', hsame]

/-- A draft is what its contract was at sequence 0. -/
theorem contractDecode_draft {canonicalDraft canonical : Bytes}
    (h : contractLineageValidate canonicalDraft canonical = .ok ()) :
    ∃ current, contractDecode canonical = .ok current ∧
      contractDecode canonicalDraft = .ok (current.moveTo 0 .draft) := by
  obtain ⟨draft, current, hview, hcurrent, hmoved⟩ := contractLineageValidate_eq_ok_iff.mp h
  obtain ⟨hdraft, hstate, hsequence⟩ := draftView_eq_ok_iff.mp hview
  refine ⟨current, hcurrent, ?_⟩
  rw [hmoved, Contract.moveTo_moveTo, ← hstate, ← hsequence, Contract.moveTo_self]
  exact hdraft

/-- Octets descend from one draft at most. -/
theorem contractLineage_draft_unique {draft draft' canonical : Bytes}
    (h : contractLineageValidate draft canonical = .ok ())
    (h' : contractLineageValidate draft' canonical = .ok ()) : draft = draft' := by
  obtain ⟨current, hcurrent, hdraft⟩ := contractDecode_draft h
  obtain ⟨current', hcurrent', hdraft'⟩ := contractDecode_draft h'
  have hsame : current = current' := Except.ok.inj (hcurrent.symm.trans hcurrent')
  rw [← hsame] at hdraft'
  exact contractDecode_injective hdraft hdraft'

/-- A contract with its participants at hand is encoded when there is room. -/
theorem contractEncode_backed (hbacked : contract.Backed) (hversion : contract.version = 1)
    (hsize : contractSize contract.participantCount contract.termsLength = .ok total)
    (hcapacity : (contractBytes contract).length ≤ capacity) :
    contractEncode contract capacity = .ok (contractBytes contract) := by
  have hparticipants : ¬(contract.participantCount ≠ 0 ∧ contract.participants = none) := by
    intro hnone
    have hlength := hbacked.participants
    rw [hnone.2] at hlength
    exact hnone.1 (Nat.le_zero.mp hlength)
  have hterms : ¬(contract.termsLength ≠ 0 ∧ contract.terms = none) := by
    intro hnone
    have hlength := hbacked.terms
    rw [hnone.2] at hlength
    exact hnone.1 (Nat.le_zero.mp hlength)
  have htotal : ¬capacity < total := by
    rw [(contractSize_bounds hsize).2.2.2, ← length_contractBytes hbacked]
    exact Nat.not_lt.mpr hcapacity
  rw [contractEncode, if_neg (not_not.mpr hversion), if_neg hparticipants, if_neg hterms, hsize]
  simp only
  rw [if_neg htotal]

end Octets

section

variable [Primitives]

section Entry

variable {entry : ContractStateEntry} {draft : Contract} {participants : List ContractParticipant}

/-- The octets of an entry's current contract. -/
def currentBytes (entry : ContractStateEntry) (participants : List ContractParticipant) : Bytes :=
  contractBytes { entry.current with participants := some participants }

/-- The current contract is encoded, and decoded again to what the entry holds. -/
theorem ContractStateEntry.From.currentBytes (h : entry.From draft participants) :
    (∀ capacity, (currentBytes entry participants).length ≤ capacity →
      contractEncode { entry.current with participants := some participants } capacity =
        .ok (currentBytes entry participants)) ∧
    contractDecode (currentBytes entry participants) = .ok entry.current := by
  obtain ⟨hdecode, -, -⟩ := draftView_eq_ok_iff.mp h.view
  obtain ⟨ps, hps, hversion, hsize, -, hbytes⟩ := contractDecode_eq_bytes hdecode
  obtain rfl : ps = participants := Except.ok.inj (hps.symm.trans h.listed)
  have hdecoded := contractDecode_decoded hdecode
  have hbacked : Contract.Backed { draft with participants := some ps } := by
    constructor
    · show draft.participantCount ≤ ps.length
      rw [length_of_mapM_eq_ok h.listed, List.length_range]
    · show draft.termsLength ≤ (draft.terms.getD []).length
      cases hterms : draft.terms with
      | none => exact (hdecoded.terms.mp hterms).le
      | some span => exact (hdecoded.termsSpan span hterms).ge
  -- the draft's octets decode to the draft, so borrowing from them gives the draft back
  have hdraft : Contract.borrowed { draft with participants := some ps } = draft := by
    have hread := contractDecode_bytes hbacked hversion hsize
    rw [hbytes, hdecode] at hread
    exact (Except.ok.inj hread).symm
  have hcurrent : ({ entry.current with participants := some ps } : Contract) =
      Contract.moveTo { draft with participants := some ps } entry.current.sequence
        entry.current.state := by
    rw [h.current]
    rfl
  have hmoved : Contract.Backed
      (Contract.moveTo { draft with participants := some ps } entry.current.sequence
        entry.current.state) := ⟨hbacked.participants, hbacked.terms⟩
  rw [StnChain.currentBytes, hcurrent]
  constructor
  · intro capacity hcapacity
    exact contractEncode_backed hmoved hversion hsize hcapacity
  · rw [contractDecode_bytes hmoved hversion hsize]
    show Except.ok ((Contract.borrowed { draft with participants := some ps }).moveTo
      entry.current.sequence entry.current.state) = _
    rw [hdraft, ← h.current]

/-- The octets of the current contract descend from the entry's draft. -/
theorem ContractStateEntry.From.lineage (h : entry.From draft participants) {canonical : Bytes}
    (hcanonical : contractDecode canonical = .ok entry.current) :
    contractLineageValidate entry.canonicalDraft canonical = .ok () :=
  contractLineageValidate_eq_ok_iff.mpr ⟨draft, entry.current, h.view, hcanonical, h.current⟩

end Entry

/-! ## The entry octets descend from -/

section Store

variable {state : ContractStateStore} {index : ℕ} {entry : ContractStateEntry}

/-- Entries whose drafts octets descend from have one place. -/
theorem ContractStoreSound.lineage_unique (h : ContractStoreSound state) {canonical : Bytes}
    {i j : ℕ} {a b : ContractStateEntry} (ha : state.entries[i]? = some a)
    (hb : state.entries[j]? = some b)
    (hlineage : contractLineageValidate a.canonicalDraft canonical = .ok ())
    (hlineage' : contractLineageValidate b.canonicalDraft canonical = .ok ()) : i = j := by
  have hdraft := contractLineage_draft_unique hlineage hlineage'
  obtain ⟨_, _, hfrom⟩ := (h.entries a (List.mem_of_getElem? ha)).origin
  obtain ⟨_, _, hfrom'⟩ := (h.entries b (List.mem_of_getElem? hb)).origin
  obtain ⟨address, haddress, hid⟩ := hfrom.address
  obtain ⟨address', haddress', hid'⟩ := hfrom'.address
  have hsame : address = address' := by
    rw [hdraft] at haddress
    exact Except.ok.inj (haddress.symm.trans haddress')
  have hids : a.contractId = b.contractId := by
    rw [← hid, ← hid', hsame]
  obtain ⟨hi, hia⟩ := List.getElem?_eq_some_iff.mp ha
  obtain ⟨hj, hjb⟩ := List.getElem?_eq_some_iff.mp hb
  have hi' : i < (state.entries.map ContractStateEntry.contractId).length := by simpa using hi
  have hj' : j < (state.entries.map ContractStateEntry.contractId).length := by simpa using hj
  have hinj : (state.entries.map ContractStateEntry.contractId)[i] =
      (state.entries.map ContractStateEntry.contractId)[j] ↔ i = j := h.ids.getElem_inj_iff
  apply hinj.mp
  rw [List.getElem_map, List.getElem_map, hia, hjb]
  exact hids

/-- The scan for the entry of octets finds the one they descend from. -/
theorem ContractStoreSound.lineageEntry_eq_some_iff (h : ContractStoreSound state)
    {canonical : Bytes} :
    lineageEntry state canonical = some (index, entry) ↔ state.entries[index]? = some entry ∧
      contractLineageValidate entry.canonicalDraft canonical = .ok () := by
  constructor
  · exact lineageEntry_eq_some
  · rintro ⟨hentry, hlineage⟩
    obtain ⟨hindex, hat⟩ := List.getElem?_eq_some_iff.mp hentry
    have hfound : state.entries.findIdx? (fun entry =>
        contractLineageValidate entry.canonicalDraft canonical = .ok ()) = some index := by
      rw [List.findIdx?_eq_some_iff_getElem]
      refine ⟨hindex, ?_, ?_⟩
      · rw [hat, hlineage]
        rfl
      · intro j hj hother
        have hj' : j < state.entries.length := hj.trans hindex
        have hsame := h.lineage_unique (List.getElem?_eq_getElem hj') hentry
          (of_decide_eq_true hother) hlineage
        exact absurd hsame (Nat.ne_of_lt hj)
    rw [lineageEntry, hfound]
    simp only
    rw [hentry]
    rfl

/-- What an accepted contract transaction did: its actor signed the current contract of an
entry, no other entry's draft is an origin of it, and that entry moved to the next sequence. -/
structure AppliedTo (store store' : ContractStateStore) (action : ContractTransaction)
    (index : ℕ) (entry : ContractStateEntry) : Prop where
  place : store.entries[index]? = some entry
  current : contractDecode action.canonicalContract = .ok entry.current
  signed : contractSignatureVerify action.actor action.action action.canonicalContract
    action.sequence action.signature = .ok ()
  only : ∀ (j : ℕ) (other : ContractStateEntry), store.entries[j]? = some other →
    contractLineageValidate other.canonicalDraft action.canonicalContract = .ok () → j = index
  moved : ∃ entry', store'.entries = store.entries.set index entry' ∧ EntryKept entry entry' ∧
    entry'.current.sequence.toNat = entry.current.sequence.toNat + 1

/-- The call of an action is accepted on the current contract of its entry only. -/
theorem ContractStoreSound.call_current (h : ContractStoreSound state)
    (hentry : state.entries[index]? = some entry) {action : ContractTransaction}
    {state' : ContractStateStore} (hcall : contractPerform state (action.call index) = .ok state') :
    contractDecode action.canonicalContract = .ok entry.current := by
  have hsound := h.entries entry (List.mem_of_getElem? hentry)
  obtain ⟨draft, participants, hfrom⟩ := hsound.origin
  by_cases happrove : action.action = .approve
  · rw [ContractTransaction.call, if_pos happrove] at hcall
    exact ((contractStateApplyVote_eq_ok_iff hentry hfrom hsound.votes).mp hcall).1
  · rw [ContractTransaction.call, if_neg happrove] at hcall
    exact ((contractPerform_act_eq_ok_iff hentry hfrom).mp hcall).2.1 _ rfl

/-- The call of an action changes its entry. -/
theorem ContractStoreSound.call_moved (h : ContractStoreSound state)
    (hentry : state.entries[index]? = some entry) {action : ContractTransaction}
    {state' : ContractStateStore} (hcall : contractPerform state (action.call index) = .ok state') :
    ∃ entry', state'.entries = state.entries.set index entry' ∧ EntryKept entry entry' ∧
      entry'.current.sequence.toNat = entry.current.sequence.toNat + 1 := by
  have heffect := (contractPerform_sound h hcall).2
  have hchanged : ∃ found entry', state.entries[index]? = some found ∧
      state'.entries = state.entries.set index entry' ∧ EntryKept found entry' ∧
      entry'.current.sequence.toNat = found.current.sequence.toNat + 1 := by
    by_cases happrove : action.action = .approve
    · rw [ContractTransaction.call, if_pos happrove] at heffect
      exact heffect
    · rw [ContractTransaction.call, if_neg happrove] at heffect
      exact heffect
  obtain ⟨found, entry', hfound, hentries, hkept, hnext⟩ := hchanged
  obtain rfl : found = entry := Option.some.inj (hfound.symm.trans hentry)
  exact ⟨entry', hentries, hkept, hnext⟩

/-- An authorized action carries its actor's signature. -/
theorem contractAuthorized_signed {lifecycle : LifecycleState} {action : ContractTransaction}
    {canonicalDraft : Bytes} {provider : HashProvider}
    (h : contractAuthorized lifecycle action canonicalDraft provider = .ok ()) :
    contractSignatureVerify action.actor action.action action.canonicalContract
      action.sequence action.signature = .ok () := by
  by_contra hunsigned
  rw [contractAuthorized, if_pos hunsigned] at h
  cases h

/-- An accepted contract transaction is applied to the contract that was signed. -/
theorem ContractStoreSound.applied (h : ContractStoreSound state) {lifecycle : LifecycleState}
    {tx : Transaction} {provider : HashProvider} {snapshot : ContractSnapshot}
    (happly : contractApplyTransaction ⟨state⟩ lifecycle tx provider = .ok snapshot) :
    ∃ action index entry, contractTransactionDecode tx.record = .ok action ∧
      AppliedTo state snapshot.state action index entry := by
  obtain ⟨action, index, entry, hdecode, hlineage, hauthorized, hcall⟩ :=
    contractApplyTransaction_eq_perform happly
  obtain ⟨hentry, hvalid⟩ := h.lineageEntry_eq_some_iff.mp hlineage
  refine ⟨action, index, entry, hdecode, hentry, h.call_current hentry hcall,
    contractAuthorized_signed hauthorized, ?_, h.call_moved hentry hcall⟩
  intro j other hother hdescends
  exact h.lineage_unique hother hentry hdescends hvalid

end Store

/-- In every store reached by registrations, votes and actions, octets descend from the draft
of one entry at most; the octets of an entry's current contract decode to it and lead the scan
to it; and an accepted transaction is applied to the one contract its actor signed. -/
theorem contract_lineage_unique (entryCapacity voteCapacity : ℕ) (calls : List ContractCall) :
    let store := contractRun (contractStateInitialize entryCapacity voteCapacity) calls
    (∀ (canonical : Bytes) (i j : ℕ) (a b : ContractStateEntry),
      store.entries[i]? = some a → store.entries[j]? = some b →
      contractLineageValidate a.canonicalDraft canonical = .ok () →
      contractLineageValidate b.canonicalDraft canonical = .ok () → i = j) ∧
    (∀ (i : ℕ) (entry : ContractStateEntry), store.entries[i]? = some entry →
      ∃ participants canonical, contractParticipants entry.current = .ok participants ∧
        (∀ capacity, canonical.length ≤ capacity →
          contractEncode { entry.current with participants := some participants } capacity =
            .ok canonical) ∧
        contractDecode canonical = .ok entry.current ∧
        contractLineageValidate entry.canonicalDraft canonical = .ok () ∧
        lineageEntry store canonical = some (i, entry)) ∧
    (∀ (lifecycle : LifecycleState) (tx : Transaction) (provider : HashProvider)
      (snapshot : ContractSnapshot),
      contractApplyTransaction ⟨store⟩ lifecycle tx provider = .ok snapshot →
      ∃ action index entry, contractTransactionDecode tx.record = .ok action ∧
        AppliedTo store snapshot.state action index entry) := by
  intro store
  have hsound : ContractStoreSound store :=
    (contractRun_sound (contractStateInitialize_sound entryCapacity voteCapacity) calls).1
  refine ⟨?_, ?_, ?_⟩
  · intro canonical i j a b ha hb hlineage hlineage'
    exact hsound.lineage_unique ha hb hlineage hlineage'
  · intro i entry hentry
    obtain ⟨draft, participants, hfrom⟩ :=
      (hsound.entries entry (List.mem_of_getElem? hentry)).origin
    obtain ⟨hencode, hdecode⟩ := hfrom.currentBytes
    have hlineage := hfrom.lineage hdecode
    have hlisted : contractParticipants entry.current = .ok participants := by
      rw [hfrom.current]
      exact hfrom.listed
    exact ⟨participants, currentBytes entry participants, hlisted, hencode, hdecode, hlineage,
      hsound.lineageEntry_eq_some_iff.mpr ⟨hentry, hlineage⟩⟩
  · intro lifecycle tx provider snapshot happly
    exact hsound.applied happly

end

section Sample

attribute [local instance] Sample.createPrimitives

open Sample

/-- The contract under review is found again by its own octets. -/
theorem reviewed_contract_found : ∃ entry canonical,
    (contractRun (contractStateInitialize 1 2) reviewCalls).entries[0]? = some entry ∧
    contractDecode canonical = .ok entry.current ∧
    lineageEntry (contractRun (contractStateInitialize 1 2) reviewCalls) canonical =
      some (0, entry) := by
  obtain ⟨entry, hentry⟩ := Option.isSome_iff_exists.mp
    (show (contractRun (contractStateInitialize 1 2) reviewCalls).entries[0]?.isSome = true by
      decide +kernel)
  obtain ⟨_, canonical, -, -, hdecode, -, hfound⟩ :=
    (contract_lineage_unique 1 2 reviewCalls).2.1 0 entry hentry
  exact ⟨entry, canonical, hentry, hdecode, hfound⟩

end Sample

end StnChain
