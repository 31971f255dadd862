import StnChain.Chain.ContractRun
import StnChain.Contract.Query
import StnChain.Support.Window

/-!
# What a contract query returns

The query collects its results in a bounded window over the store's entries, in whatever
order the store holds them.  The order of `before` is the order of a key that distinct
contracts do not share, so that the results are the first of all the identity's contracts in
that order, `contractQuery_sort_then_take`.
-/

namespace StnChain

/-! ## The order of the results -/

/-- `before` compares these: the terminal states last, then the age, then the identifier. -/
def queryKey (r : ContractQueryResult) : ℕ :=
  ((terminalState r.state).toNat * 2 ^ 64 + (2 ^ 64 - 1 - r.createdAt.toNat)) * 2 ^ 256 +
    r.contractId.toNat

theorem queryBefore_iff (a b : ContractQueryResult) :
    queryBefore a b = true ↔ queryKey a < queryKey b := by
  have hidA := a.contractId.isLt
  have hidB := b.contractId.isLt
  have hageA := a.createdAt.toNat_lt
  have hageB := b.createdAt.toNat_lt
  simp only [queryBefore, queryKey]
  by_cases hterminal : terminalState a.state = terminalState b.state
  · rw [if_neg (not_not.mpr hterminal), hterminal]
    by_cases hage : a.createdAt = b.createdAt
    · rw [if_neg (not_not.mpr hage), hage, decide_eq_true_eq, BitVec.lt_def]
      omega
    · have hne : a.createdAt.toNat ≠ b.createdAt.toNat := fun h => hage (UInt64.toNat_inj.mp h)
      rw [if_pos hage, decide_eq_true_eq, gt_iff_lt, UInt64.lt_iff_toNat_lt]
      omega
  · rw [if_pos hterminal]
    cases ha : terminalState a.state with
    | false =>
        have hb : terminalState b.state = true := by
          simpa [ha] using Ne.symm hterminal
        rw [hb, Bool.toNat_false, Bool.toNat_true]
        exact iff_of_true rfl (by omega)
    | true =>
        have hb : terminalState b.state = false := by
          simpa [ha] using Ne.symm hterminal
        rw [hb, Bool.toNat_false, Bool.toNat_true]
        exact iff_of_false Bool.false_ne_true (by omega)

/-- Contracts of one key have one identifier. -/
theorem contractId_eq_of_queryKey {a b : ContractQueryResult} (h : queryKey a = queryKey b) :
    a.contractId = b.contractId := by
  have hidA := a.contractId.isLt
  have hidB := b.contractId.isLt
  apply BitVec.eq_of_toNat_eq
  simp only [queryKey] at h
  omega

/-- `a` may stand before `b` among the results. -/
def queryNotAfter (a b : ContractQueryResult) : Bool :=
  !queryBefore b a

theorem queryNotAfter_eq : queryNotAfter = fun a b => decide (queryKey a ≤ queryKey b) := by
  funext a b
  rw [queryNotAfter, Bool.eq_iff_iff, Bool.not_eq_true', ← Bool.not_eq_true, queryBefore_iff,
    not_lt, decide_eq_true_eq]

/-! ## The scan -/

/-- The identity is that of one of the contract's participants. -/
def participates (identity : Octets 32) (contract : Contract) : Bool :=
  (List.range contract.participantCount).any fun i =>
    match contractParticipantAt contract i with
    | .error _ => false
    | .ok participant => participant.identity = identity

theorem containsIdentity_eq_some {contract : Contract} {identity : Octets 32} {indices : List ℕ}
    {member : Bool} (h : containsIdentity contract identity indices = some member) :
    member = indices.any fun i =>
      match contractParticipantAt contract i with
      | .error _ => false
      | .ok participant => participant.identity = identity := by
  induction indices with
  | nil => exact (Option.some.inj h).symm
  | cons i rest ih =>
      simp only [containsIdentity] at h
      rw [List.any_cons]
      split at h
      · cases h
      next participant hparticipant =>
      by_cases hidentity : participant.identity = identity
      · rw [if_pos hidentity] at h
        simp only [hparticipant, hidentity, decide_true, Bool.true_or]
        exact (Option.some.inj h).symm
      · rw [if_neg hidentity] at h
        simp only [hparticipant, hidentity, decide_false, Bool.false_or]
        exact ih h

theorem sinkResult_eq : sinkResult = Window.sink queryBefore := by
  funext item results
  induction results with
  | nil => exact rfl
  | cons r rest ih => rw [sinkResult, Window.sink, ih]

theorem keepResult_eq : keepResult = Window.keep queryBefore := by
  funext limit results item
  cases results with
  | nil => rw [keepResult, Window.keep, sinkResult_eq]
  | cons last rest => rw [keepResult, Window.keep, sinkResult_eq]

section

variable [Primitives]

/-- The entry's contract has participants the query can read. -/
def ContractReadable (identity : Octets 32) (entry : ContractStateEntry) : Prop :=
  containsIdentity entry.current identity (List.range entry.current.participantCount) ≠ none

instance (identity : Octets 32) (entry : ContractStateEntry) :
    Decidable (ContractReadable identity entry) :=
  inferInstanceAs (Decidable (_ ≠ _))

/-- The results the entries of an identity's contracts give. -/
def identityResults (identity : Octets 32) (entries : List ContractStateEntry) :
    List ContractQueryResult :=
  (entries.filter fun entry => participates identity entry.current).map queryResult

theorem identityResults_cons (identity : Octets 32) (entry : ContractStateEntry)
    (rest : List ContractStateEntry) :
    identityResults identity (entry :: rest) =
      if participates identity entry.current then
        queryResult entry :: identityResults identity rest
      else identityResults identity rest := by
  simp only [identityResults, List.filter_cons]
  split
  · exact rfl
  · exact rfl

theorem queryLoop_eq (identity : Octets 32) (limit : ℕ) (entries : List ContractStateEntry)
    (window : List ContractQueryResult) :
    queryLoop identity limit window entries =
      if ∀ entry ∈ entries, ContractReadable identity entry then
        .ok ((identityResults identity entries).foldl (Window.keep queryBefore limit) window)
      else .error .argument := by
  induction entries generalizing window with
  | nil => simp [queryLoop, identityResults]
  | cons entry rest ih =>
      rw [identityResults_cons]
      simp only [queryLoop, List.forall_mem_cons]
      split
      next hunreadable =>
        exact (if_neg fun h => h.1 hunreadable).symm
      next hmember =>
        have hreadable : ContractReadable identity entry :=
          fun h => Option.some_ne_none _ (hmember.symm.trans h)
        have hfree : ¬ participates identity entry.current = true :=
          Bool.eq_false_iff.mp (containsIdentity_eq_some hmember).symm
        simp only [ih, hreadable, true_and, if_neg hfree]
      next hmember =>
        have hreadable : ContractReadable identity entry :=
          fun h => Option.some_ne_none _ (hmember.symm.trans h)
        have htaken : participates identity entry.current = true :=
          (containsIdentity_eq_some hmember).symm
        simp only [ih, hreadable, true_and, if_pos htaken, List.foldl_cons, keepResult_eq]

/-- The participants of a sound entry can be read. -/
theorem ContractEntrySound.readable {slots : ℕ → VoteKey} {entry : ContractStateEntry}
    (h : ContractEntrySound slots entry) (identity : Octets 32) :
    ContractReadable identity entry := by
  obtain ⟨draft, participants, hfrom⟩ := h.origin
  have hlisted : (List.range entry.current.participantCount).mapM
      (contractParticipantAt entry.current) = .ok participants := by
    rw [hfrom.current]
    exact hfrom.listed
  have hscan (indices : List ℕ) : ∀ participants, indices.mapM
      (contractParticipantAt entry.current) = .ok participants →
      containsIdentity entry.current identity indices ≠ none := by
    induction indices with
    | nil => exact fun _ _ => Option.some_ne_none _
    | cons i rest ih =>
        intro participants hparticipants
        obtain ⟨participant, others, hparticipant, hothers, -⟩ := mapM_cons_eq_ok hparticipants
        simp only [containsIdentity, hparticipant]
        by_cases hidentity : participant.identity = identity
        · rw [if_pos hidentity]
          exact Option.some_ne_none _
        · rw [if_neg hidentity]
          exact ih others hothers
  exact hscan _ participants hlisted

/-! ## The query -/

theorem contractQueryIdentity_eq (store : ContractStateStore) (identity : Octets 32)
    {capacity : ℕ} (hcapacity : 0 < capacity) :
    contractQueryIdentity store identity capacity =
      if store.entries.length ≤ store.entryCapacity ∧
          ∀ entry ∈ store.entries, ContractReadable identity entry then
        .ok ((identityResults identity store.entries).foldl
          (Window.keep queryBefore (min capacity contractQueryMaxResults)) []).reverse
      else .error .argument := by
  have hlimit : min capacity contractQueryMaxResults ≠ 0 :=
    (lt_min hcapacity (by decide)).ne'
  simp only [contractQueryIdentity, if_neg hlimit]
  by_cases hwithin : store.entries.length > store.entryCapacity
  · rw [if_pos hwithin, if_neg fun h => not_lt.mpr h.1 hwithin]
  · rw [if_neg hwithin, queryLoop_eq]
    by_cases hreadable : ∀ entry ∈ store.entries, ContractReadable identity entry
    · rw [if_pos hreadable, if_pos ⟨not_lt.mp hwithin, hreadable⟩]
      exact rfl
    · rw [if_neg hreadable, if_neg fun h => hreadable h.2]
      exact rfl

/-- An identity's results have distinct keys when the store's contracts are distinct. -/
theorem nodup_queryKey {entries : List ContractStateEntry}
    (h : (entries.map ContractStateEntry.contractId).Nodup) (identity : Octets 32) :
    ((identityResults identity entries).map queryKey).Nodup := by
  have hids : ((identityResults identity entries).map ContractQueryResult.contractId).Nodup := by
    rw [identityResults, List.map_map]
    exact h.sublist (List.filter_sublist.map _)
  have hresults : (identityResults identity entries).Nodup := hids.of_map _
  refine hresults.map_on fun a ha b hb heq => ?_
  exact List.inj_on_of_nodup_map hids ha hb (contractId_eq_of_queryKey heq)

/-- Of a store of distinct contracts the query returns the beginning of the sorted results. -/
theorem contractQueryIdentity_eq_sorted {store : ContractStateStore}
    (hids : (store.entries.map ContractStateEntry.contractId).Nodup) (identity : Octets 32)
    {capacity : ℕ} (hcapacity : 0 < capacity) :
    contractQueryIdentity store identity capacity =
      if store.entries.length ≤ store.entryCapacity ∧
          ∀ entry ∈ store.entries, ContractReadable identity entry then
        .ok (((identityResults identity store.entries).mergeSort queryNotAfter).take
          (min capacity contractQueryMaxResults))
      else .error .argument := by
  have hlimit : 0 < min capacity contractQueryMaxResults := lt_min hcapacity (by decide)
  rw [contractQueryIdentity_eq store identity hcapacity, queryNotAfter_eq,
    Window.reverse_foldl_keep queryBefore_iff hlimit (nodup_queryKey hids identity)]

/-- The sorted results do not depend on the arrangement of the entries. -/
theorem mergeSort_identityResults_perm {entries entries' : List ContractStateEntry}
    (hids : (entries.map ContractStateEntry.contractId).Nodup) (h : entries'.Perm entries)
    (identity : Octets 32) :
    (identityResults identity entries').mergeSort queryNotAfter =
      (identityResults identity entries).mergeSort queryNotAfter := by
  have hresults : (identityResults identity entries').Perm (identityResults identity entries) :=
    (h.filter _).map _
  have hsorted := Window.pairwise_mergeSort queryKey (identityResults identity entries')
  rw [queryNotAfter_eq]
  exact Window.eq_mergeSort (nodup_queryKey hids identity)
    ((List.mergeSort_perm _ _).trans hresults) hsorted

/-- The results are the first of the contracts the identity takes part in, and another
arrangement of the entries gives the same ones. -/
theorem contractQuery_sort_then_take {store : ContractStateStore}
    (hids : (store.entries.map ContractStateEntry.contractId).Nodup) (identity : Octets 32)
    {capacity : ℕ} (hcapacity : 0 < capacity) :
    ((∃ results, contractQueryIdentity store identity capacity = .ok results) ↔
      store.entries.length ≤ store.entryCapacity ∧
        ∀ entry ∈ store.entries, ContractReadable identity entry) ∧
    (ContractStoreSound store → ∀ entry ∈ store.entries, ContractReadable identity entry) ∧
    (∀ results, contractQueryIdentity store identity capacity = .ok results →
      results = ((identityResults identity store.entries).mergeSort queryNotAfter).take
        (min capacity contractQueryMaxResults) ∧
      results.Nodup) ∧
    (∀ store' : ContractStateStore, store'.entries.Perm store.entries →
      store'.entryCapacity = store.entryCapacity →
        contractQueryIdentity store' identity capacity =
          contractQueryIdentity store identity capacity) := by
  have hquery := contractQueryIdentity_eq_sorted hids identity hcapacity
  refine ⟨?_, ?_, ?_, ?_⟩
  · rw [hquery]
    split
    next h => exact iff_of_true ⟨_, rfl⟩ h
    next h => exact iff_of_false (fun ⟨_, hresults⟩ => nomatch hresults) h
  · exact fun hsound entry hentry => (hsound.entries entry hentry).readable identity
  · intro results hresults
    rw [hquery] at hresults
    split at hresults
    · obtain rfl := Except.ok.inj hresults
      have hnodup := (nodup_queryKey hids identity).of_map
      refine ⟨rfl, List.Nodup.sublist (List.take_sublist _ _) ?_⟩
      exact (List.mergeSort_perm _ _).nodup_iff.mpr hnodup
    · cases hresults
  · intro store' hentries hroom
    have hids' : (store'.entries.map ContractStateEntry.contractId).Nodup :=
      (hentries.map _).nodup_iff.mpr hids
    rw [hquery, contractQueryIdentity_eq_sorted hids' identity hcapacity,
      mergeSort_identityResults_perm hids hentries, hentries.length_eq, hroom]
    simp only [hentries.mem_iff]

end

section Sample

attribute [local instance] Sample.createPrimitives

namespace Sample

/-- An entry whose contract has the issuer as its one participant. -/
def issuerEntry (contractId : Octets 32) (state : ContractState) (createdAt : UInt64) :
    ContractStateEntry where
  contractId
  canonicalDraft := []
  current := {
    version := 1, type := .generic, sequence := 0, createdAt, state, participants := none
    participantCount := 1
    participantBytes := some (octetBytes issuerId ++ wireWrite 2 2)
    terms := none, termsLength := 0 }
  voteOffset := 0
  voteCount := 0
  eligibleCount := 0
  requiredCount := 0

/-- A closed contract, and two of one age. -/
def issuerStore : ContractStateStore :=
  ⟨[issuerEntry 5 .executed 9, issuerEntry 7 .draft 3, issuerEntry 2 .review 3], 3,
    fun _ => ⟨0, 0⟩, 0, 0⟩

end Sample

open Sample

theorem sample_contracts_listed : ∃ results,
    contractQueryIdentity issuerStore issuerId 2 = .ok results ∧
    results.map ContractQueryResult.contractId = [2, 7] ∧ results.Nodup := by
  have hquery : contractQueryIdentity issuerStore issuerId 2 =
      .ok [queryResult (issuerEntry 2 .review 3), queryResult (issuerEntry 7 .draft 3)] := rfl
  obtain ⟨-, -, hsorted, -⟩ := contractQuery_sort_then_take
    (show (issuerStore.entries.map ContractStateEntry.contractId).Nodup by decide) issuerId
    (show 0 < 2 by decide)
  exact ⟨_, hquery, rfl, (hsorted _ hquery).2⟩

end Sample

end StnChain
