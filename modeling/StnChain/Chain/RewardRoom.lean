import StnChain.Chain.Conservation
import StnChain.Chain.Rewards
import StnChain.Chain.Rotations
import StnChain.Chain.Transfers

/-!
# Room for block rewards

A reward pair needs room for its evidence identifier and for a balance.  The
clones of a candidate have room for the balances of one more block, however long
the history is.  The consumed evidence identifiers have one store of
`STN_BLOCK_COMPENSATION_REPLAY_CAPACITY` entries, which no clone enlarges and
nothing empties, so a valid pair is accepted exactly while fewer rewards than
that came before it (`reward_accepted_iff`).  The sample is a chain that rewards
each of its blocks in the next one.
-/

namespace StnChain

section

variable [Primitives]

/-! ## What accepted states store -/

/-- Every component of a state fits the storage it has. -/
structure ChainState.Stored (s : ChainState) : Prop where
  economy : s.economy.state.Conserved
  transfers : s.economy.replay.consumed.length ≤ s.economy.replay.capacity
  compensation : s.compensation.WellFormed
  shares : s.shares.consumed.length ≤ s.shares.capacity
  evidence : s.blockCompensation.ids.length ≤ blockCompensationReplayCapacity
  evidenceNonzero : 0 ∉ s.blockCompensation.ids
  contracts : s.contracts.state.entries = []

/-- Candidates inherit fitting storage and every round keeps it. -/
theorem stored_preserved : Preserved ChainState.Stored where
  inherit h hs := {
    economy := conserved_preserved.inherit h hs.economy
    transfers := h.transfersWithin hs.transfers
    compensation := wellFormed_preserved.inherit h hs.compensation
    shares := h.sharesWithin hs.shares
    evidence := h.blockCompensation ▸ hs.evidence
    evidenceNonzero := h.blockCompensation ▸ hs.evidenceNonzero
    contracts := contracts_preserved.inherit h hs.contracts }
  single {env tx s s'} h hs := by
    have hstep := stepOf_of_applyTransaction h
    have htransfers : s'.economy.replay.consumed.length ≤ s'.economy.replay.capacity := by
      cases hstep with
      | transfer _ happly =>
          obtain ⟨envelope, _, haccept⟩ := applyTransfer_eq_ok happly
          obtain ⟨_, _, hconsume⟩ := transferEnvelopeAccept_eq_ok haccept
          obtain ⟨hroom, -, hreplay⟩ := transferEnvelopeReplayConsume_fresh hconsume
          rw [hreplay]
          simpa using Nat.succ_le_of_lt hroom
      | issuance _ _ | destination _ _ | contract _ _ | share _ _ | lifecycle _ _ =>
          exact hs.transfers
    have hshares : s'.shares.consumed.length ≤ s'.shares.capacity := by
      cases hstep with
      | share _ happly =>
          obtain ⟨_, _, _, _, _, _, hconsume⟩ := applyShare_eq_ok happly
          obtain ⟨hroom, -, hreplay⟩ := shareReplayConsume_fresh hconsume
          rw [hreplay]
          simpa using Nat.succ_le_of_lt hroom
      | issuance _ _ | transfer _ _ | destination _ _ | contract _ _ | lifecycle _ _ =>
          exact hs.shares
    obtain ⟨hevidence, -⟩ := hstep.blockCompensation
    exact {
      economy := conserved_preserved.single h hs.economy
      transfers := htransfers
      compensation := wellFormed_preserved.single h hs.compensation
      shares := hshares
      evidence := hevidence ▸ hs.evidence
      evidenceNonzero := hevidence ▸ hs.evidenceNonzero
      contracts := contracts_preserved.single h hs.contracts }
  pair h hs := by
    have heconomy := conserved_preserved.pair h hs.economy
    have hcompensation := wellFormed_preserved.pair h hs.compensation
    have hcontracts := contracts_preserved.pair h hs.contracts
    obtain ⟨_, _, _, _, _, _, _, _, _, _, _, _, hconsume, _, rfl⟩ := applyPair_eq_ok h
    obtain ⟨id, -, -, rfl, hne, hroom⟩ := consumeEvidence_eq_ok hconsume
    refine ⟨heconomy, hs.transfers, hcompensation, hs.shares, ?_, ?_, hcontracts⟩
    · simpa using Nat.succ_le_of_lt hroom
    · rw [List.mem_append, List.mem_singleton]
      exact not_or.mpr ⟨hs.evidenceNonzero, Ne.symm hne⟩

omit [Primitives] in
theorem emptyState_stored (c : ChainContext) (activation : UInt64) :
    (emptyState c activation).Stored where
  economy := emptyState_conserved c activation
  transfers := le_refl _
  compensation := emptyState_wellFormed c activation
  shares := le_refl _
  evidence := Nat.zero_le _
  evidenceNonzero := List.not_mem_nil
  contracts := rfl

omit [Primitives] in
theorem cloneIf_of_eq_some {α : Type} {clone : α → Option α} {a a' : α} (flag : Bool)
    (h : clone a = some a') : ∃ a'', cloneIf flag clone a = some a'' := by
  cases flag with
  | false => exact ⟨a, rfl⟩
  | true => exact ⟨a', h⟩

omit [Primitives] in
/-- The components of a state that is stored can be copied. -/
theorem candidateComponents_isSome {next : ChainState} (h : next.Stored)
    (flags : CandidateFlags) (count : ℕ) (reconstruct : Bool) :
    ∃ candidate, candidateComponents flags count reconstruct next = some candidate := by
  have hshares : shareClone next.shares = some _ := if_neg (not_lt.mpr h.shares)
  have hcopy : blockCompensationReplayCopy next.blockCompensation = .ok next.blockCompensation := by
    rw [blockCompensationReplayCopy, if_neg (not_lt.mpr h.evidence), if_neg h.evidenceNonzero]
  have hevidence : blockCompensationClone next.blockCompensation =
      some next.blockCompensation := by
    rw [blockCompensationClone, hcopy, Except.toOption]
  have hcompensation : compensationClone next.compensation = some _ :=
    if_neg (not_lt.mpr h.compensation.within)
  have heconomy : ∃ economy, economicClone next.economy = some economy := by
    rw [economicClone, if_neg (not_lt.mpr h.economy.within), if_neg (not_lt.mpr h.transfers)]
    exact ⟨_, rfl⟩
  have hcontracts : ∃ contracts, contractSnapshotClone next.contracts = some contracts := by
    rw [contractSnapshotClone, contractSnapshotBind, h.contracts]
    exact ⟨_, rfl⟩
  obtain ⟨_, heconomy⟩ := heconomy
  obtain ⟨_, hcontracts⟩ := hcontracts
  obtain ⟨_, hshares⟩ := cloneIf_of_eq_some flags.shares hshares
  obtain ⟨_, hevidence⟩ := cloneIf_of_eq_some flags.blockCompensation hevidence
  obtain ⟨_, hcompensation⟩ := cloneIf_of_eq_some flags.compensation hcompensation
  obtain ⟨_, heconomy⟩ := cloneIf_of_eq_some flags.economy heconomy
  obtain ⟨_, hcontracts⟩ := cloneIf_of_eq_some flags.contracts hcontracts
  simp only [candidateComponents, hshares, hevidence, hcompensation, heconomy, hcontracts,
    Option.bind_eq_bind, Option.bind_some]
  exact ⟨_, rfl⟩

/-! ## Room for balances -/

omit [Primitives] in
/-- An issuance adds at most one balance. -/
theorem economicStateApply_length {s s' : EconomicState} {r : IssuanceRecord}
    (h : economicStateApply s r = .ok s') :
    s'.capacity = s.capacity ∧ s'.balances.length ≤ s.balances.length + 1 := by
  obtain ⟨-, hcase⟩ := economicStateApply_cases h
  rcases hcase with ⟨_, _, _, _, _, rfl⟩ | ⟨_, _, rfl⟩
  · exact ⟨rfl, by simp⟩
  · exact ⟨rfl, by simp⟩

omit [Primitives] in
/-- A transfer adds at most one balance. -/
theorem economicStateApplyTransfer_length {s s' : EconomicState} {t : Transfer}
    (h : economicStateApplyTransfer s t = .ok s') :
    s'.capacity = s.capacity ∧ s'.balances.length ≤ s.balances.length + 1 := by
  obtain ⟨_, _, _, _, hcase⟩ := economicStateApplyTransfer_cases h
  rcases hcase with ⟨_, _, _, rfl⟩ | ⟨_, _, rfl⟩
  · exact ⟨rfl, by simp⟩
  · exact ⟨rfl, by simp⟩

/-- Transactions add at most one balance each, within the storage there is. -/
theorem Applied.balances_le {env : CandidateEnv} {ts : List Bytes} {s s' : ChainState}
    (h : Applied env ts s s') :
    s'.economy.state.capacity = s.economy.state.capacity ∧
      s'.economy.state.balances.length ≤ s.economy.state.balances.length + ts.length := by
  induction h with
  | nil => exact ⟨rfl, le_refl _⟩
  | @single _ _ _ s s₁ _ _ _ hstep _ ih =>
      have hone : s₁.economy.state.capacity = s.economy.state.capacity ∧
          s₁.economy.state.balances.length ≤ s.economy.state.balances.length + 1 := by
        cases stepOf_of_applyTransaction hstep with
        | issuance _ happly =>
            obtain ⟨_, _, _, _, _, _, _, _, _, heconomy⟩ := applyIssuance_eq_ok happly
            exact economicStateApply_length heconomy
        | transfer _ happly =>
            obtain ⟨_, _, haccept⟩ := applyTransfer_eq_ok happly
            obtain ⟨_, htransfer, _⟩ := transferEnvelopeAccept_eq_ok haccept
            exact economicStateApplyTransfer_length htransfer
        | destination _ _ | contract _ _ | share _ _ | lifecycle _ _ =>
            exact ⟨rfl, Nat.le_succ _⟩
      refine ⟨ih.1.trans hone.1, ?_⟩
      rw [List.length_cons]
      omega
  | pair _ _ hstep _ ih =>
      obtain ⟨_, _, _, _, _, _, _, _, _, _, _, _, _, heconomy, rfl⟩ := applyPair_eq_ok hstep
      obtain ⟨hcapacity, hlength⟩ := economicStateApply_length heconomy
      refine ⟨ih.1.trans hcapacity, ?_⟩
      have hrest := ih.2
      rw [List.length_cons, List.length_cons]
      dsimp only at hrest
      omega

theorem scanTransaction_blockCompensation {c : ChainContext} {prior : ChainState}
    {height : UInt64} {t : Bytes} {flags flags' : CandidateFlags}
    (h : scanTransaction c prior height t flags = .ok flags') :
    (flags.blockCompensation = true → flags'.blockCompensation = true) ∧
      ∀ tx, transactionDecode t = .ok tx → tx.type = .blockCompensationEvidence →
        flags'.blockCompensation = true := by
  simp only [scanTransaction] at h
  split at h
  · simp at h
  next tx hdecode =>
  have htx : ∀ tx', transactionDecode t = .ok tx' → tx' = tx := fun tx' hdecode' =>
    Except.ok.inj (hdecode'.symm.trans hdecode)
  split at h
  case h_3 =>
    obtain rfl := Except.ok.inj h
    exact ⟨fun _ => rfl, fun _ _ _ => rfl⟩
  case h_10 htype =>
    refine ⟨?_, fun tx' hdecode' htype' => ?_⟩
    · split at h
      · simp at h
      split at h
      · simp at h
      split at h
      · obtain rfl := Except.ok.inj h
        exact id
      · obtain rfl := Except.ok.inj h
        exact id
    · rw [htx tx' hdecode', htype] at htype'
      simp at htype'
  all_goals
    next htype =>
      obtain rfl := Except.ok.inj h
      refine ⟨id, fun tx' hdecode' htype' => ?_⟩
      rw [htx tx' hdecode', htype] at htype'
      simp at htype'

/-- Evidence in a body sets its flag. -/
theorem scanBody_blockCompensation {c : ChainContext} {prior : ChainState} {height : UInt64}
    {ts : List Bytes} {flags flags' : CandidateFlags}
    (h : scanBody c prior height ts flags = .ok flags') :
    (flags.blockCompensation = true → flags'.blockCompensation = true) ∧
      ∀ t ∈ ts, ∀ tx, transactionDecode t = .ok tx → tx.type = .blockCompensationEvidence →
        flags'.blockCompensation = true := by
  induction ts generalizing flags with
  | nil =>
      obtain rfl := Except.ok.inj h
      exact ⟨id, by simp⟩
  | cons t ts ih =>
      simp only [scanBody] at h
      split at h
      · simp at h
      next hscan =>
      obtain ⟨hkeep, hset⟩ := scanTransaction_blockCompensation hscan
      obtain ⟨hkeep', hset'⟩ := ih h
      refine ⟨hkeep' ∘ hkeep, fun t' ht' tx hdecode htype => ?_⟩
      rcases List.mem_cons.mp ht' with rfl | ht'
      · exact hkeep' (hset tx hdecode htype)
      · exact hset' t' ht' tx hdecode htype

/-- A candidate whose body carries evidence has room for a block of balances. -/
theorem CandidatePrepared.balances_room {c : ChainContext} {prior : ChainState} {bytes : Bytes}
    {reconstruct : Bool} {b : Block} {flags : CandidateFlags} {candidate : ChainState}
    (h : CandidatePrepared c prior bytes reconstruct b flags candidate)
    (hflag : flags.blockCompensation = true) :
    candidate.economy.state.balances.length + blockMaxTransactions =
      candidate.economy.state.capacity := by
  obtain ⟨_, next, -, -, -, hcomponents⟩ := h.next
  simp only [candidateComponents, Option.bind_eq_bind, Option.bind_eq_some_iff] at hcomponents
  obtain ⟨_, -, _, -, _, -, economy, heconomy, _, -, hcandidate⟩ := hcomponents
  obtain rfl := Option.some.inj hcandidate
  have hset : flags.economy = true := by simp [CandidateFlags.economy, hflag]
  rw [hset, cloneIf, if_pos rfl] at heconomy
  rw [economicClone_eq_some heconomy]
  rfl

/-! ## Accepting a pair -/

omit [Primitives] in
/-- The overflow guard of the source passes where the sum fits. -/
theorem guard_of_toNat_add_lt {a b : UInt64} (h : a.toNat + b.toNat < 2 ^ 64) :
    ¬ uint64Max - a < b := by
  have ha := a.toNat_lt
  rw [uint64Max, UInt64.lt_iff_toNat_lt, UInt64.toNat_sub]
  simp
  omega

omit [Primitives] in
theorem EconomicState.units_le_held {s : EconomicState} {b : EconomicBalance}
    (h : b ∈ s.balances) : b.units.toNat ≤ s.held := by
  obtain ⟨before, after, hsplit⟩ := List.append_of_mem h
  rw [EconomicState.held, hsplit, SortedTable.total_append, SortedTable.total_cons]
  omega

omit [Primitives] in
/-- An issuance applies where there is room for a balance and the supply does not
overflow; no balance exceeds the supply. -/
theorem economicStateApply_isOk {s : EconomicState} {r : IssuanceRecord} (hs : s.Conserved)
    (hvalid : issuanceRecordValid r = .ok ()) (hroom : s.balances.length < s.capacity)
    (hsupply : s.totalSupply.toNat + r.units.toNat < 2 ^ 64) :
    ∃ s', economicStateApply s r = .ok s' := by
  simp only [economicStateApply, hvalid, if_neg (not_lt.mpr hs.within),
    if_neg (guard_of_toNat_add_lt hsupply), if_neg (ne_of_lt hroom)]
  split
  · exact ⟨_, rfl⟩
  next b rest habove =>
  have hmem : b ∈ s.balances := by
    have hsplit : SortedTable.below EconomicBalance.key r.destination.wallet.identifier.toNat
        s.balances ++ b :: rest = s.balances := by
      rw [← habove]
      exact SortedTable.below_append_above
    rw [← hsplit]
    simp
  have hunits := EconomicState.units_le_held hmem
  have hguard : b.units.toNat + r.units.toNat < 2 ^ 64 := by
    have heq := hs.supply
    omega
  rw [if_neg (guard_of_toNat_add_lt hguard)]
  split
  · exact ⟨_, rfl⟩
  · exact ⟨_, rfl⟩

omit [Primitives] in
theorem blockCompensationReplayScan_of_not_mem {id : Octets 32} {ids : List (Octets 32)}
    (hzero : 0 ∉ ids) (hfresh : id ∉ ids) : blockCompensationReplayScan id ids = .ok () := by
  induction ids with
  | nil => rfl
  | cons head rest ih =>
      obtain ⟨hhead, hzero⟩ := not_or.mp (mt List.mem_cons.mpr hzero)
      obtain ⟨hne, hfresh⟩ := not_or.mp (mt List.mem_cons.mpr hfresh)
      rw [blockCompensationReplayScan, if_neg (Ne.symm hhead), if_neg (Ne.symm hne)]
      exact ih hzero hfresh

theorem issuanceBindBlock_valid {issuance : IssuanceRecord} {e : BlockCompensationEvidence}
    {compensation : CompensationState}
    (h : issuanceBindBlock issuance e compensation = .ok ()) :
    issuance.units = issuanceBlockUnits ∧ issuance.reason = issuanceReasonBlock ∧
      issuanceRecordValid issuance = .ok () := by
  simp only [issuanceBindBlock] at h
  split at h
  · simp at h
  next hamount =>
  split at h
  · simp at h
  next htypes =>
  obtain ⟨hreason, hunits⟩ := not_or.mp hamount
  obtain ⟨-, hidentity, hwallet⟩ := by simpa only [not_or] using htypes
  rw [not_not] at hreason hunits
  refine ⟨hunits, hreason, ?_⟩
  rw [issuanceRecordValid, if_neg (not_or.mpr ⟨hidentity, hwallet⟩), if_pos]
  rw [validAmount, hreason, hunits]
  rfl

/-- A pair that is bound to an accepted block applies while there is room for its
identifier. -/
theorem applyPair_isOk {env : CandidateEnv} {t next : Bytes} {tx tx' : Transaction}
    {e : BlockCompensationEvidence} {r : IssuanceRecord} {mid : ChainState}
    (hdecode : transactionDecode t = .ok tx) (htype : tx.type = .blockCompensationEvidence)
    (he : blockCompensationDecode tx.record = .ok e)
    (haccepted : blockAccepted env e.blockId = .ok ())
    (hdecode' : transactionDecode next = .ok tx') (htype' : tx'.type = .issuance)
    (hr : issuanceDecode tx'.record = .ok r)
    (hbind : issuanceBindBlock r e mid.compensation = .ok ())
    (hstored : mid.Stored) (hne : r.evidenceId ≠ 0)
    (hfresh : r.evidenceId ∉ mid.blockCompensation.ids)
    (hbalances : mid.economy.state.balances.length < mid.economy.state.capacity)
    (hsupply : mid.economy.state.totalSupply.toNat + issuanceBlockUnits.toNat < 2 ^ 64)
    (hroom : mid.blockCompensation.ids.length < blockCompensationReplayCapacity) :
    ∃ after, applyPair env tx next mid = .ok after := by
  obtain ⟨hunits, hreason, hvalid⟩ := issuanceBindBlock_valid hbind
  obtain ⟨economy, heconomy⟩ := economicStateApply_isOk hstored.economy hvalid hbalances
    (hunits ▸ hsupply)
  have hversion := (transactionDecode_eq_ok hdecode).1
  have hversion' := (transactionDecode_eq_ok hdecode').1
  have hlen : tx.record.length = blockCompensationCanonicalSize := by
    simp only [blockCompensationDecode] at he
    split at he
    · simp at he
    · next hlen => exact not_not.mp hlen
  have hlen' : tx'.record.length = issuanceCanonicalSize := (issuanceDecode_eq_ok hr).1
  have hcopy : blockCompensationReplayCopy mid.blockCompensation = .ok mid.blockCompensation := by
    rw [blockCompensationReplayCopy, if_neg (not_lt.mpr hstored.evidence),
      if_neg hstored.evidenceNonzero]
  have hconsume : blockCompensationReplayConsumeEvidence mid.blockCompensation e =
      .ok ⟨mid.blockCompensation.ids ++ [r.evidenceId]⟩ := by
    simp only [blockCompensationReplayConsumeEvidence, issuanceBindBlock_evidenceId hbind,
      blockCompensationReplayConsume, if_neg (not_lt.mpr hstored.evidence), if_neg hne,
      blockCompensationReplayScan_of_not_mem hstored.evidenceNonzero hfresh,
      if_neg (not_le.mpr hroom), ge_iff_le]
  have haccept : blockCompensationAccept mid.blockCompensation e r mid.compensation
      mid.economy.state = .ok (⟨mid.blockCompensation.ids ++ [r.evidenceId]⟩, economy) := by
    simp only [blockCompensationAccept, if_neg (not_lt.mpr hstored.economy.within), hbind, hcopy,
      hconsume, heconomy, bind, Except.bind, pure, Except.pure]
  have happly : blockCompensationCandidateApply tx tx' mid.blockCompensation mid.compensation
      mid.economy.state = .ok (⟨mid.blockCompensation.ids ++ [r.evidenceId]⟩, economy) := by
    simp only [blockCompensationCandidateApply, hversion, htype, hlen, hversion', htype', hlen',
      he, hr, hreason, haccept, bind, Except.bind, ne_eq, not_true_eq_false, or_self, if_false]
  simp only [applyPair, applyBlockCompensation, he, haccepted, hdecode', htype', happly, ne_eq,
    not_true_eq_false, if_false]
  exact ⟨_, rfl⟩

/-- A run over two parts passes through the state after the first. -/
theorem Applied.of_append {env : CandidateEnv} {pre rest : List Bytes} {s mid s' : ChainState}
    (h : Applied env (pre ++ rest) s s') (hpre : Applied env pre s mid) :
    Applied env rest mid s' := by
  induction hpre with
  | nil => exact h
  | single hdecode htype hstep _ ih =>
      have hrun := applyTransactions_eq_ok_iff.mpr h
      rw [List.cons_append, applyTransactions_cons hdecode htype] at hrun
      obtain ⟨s₁, hstep', hrest⟩ := bind_eq_ok_iff.mp hrun
      obtain rfl := Except.ok.inj (hstep.symm.trans hstep')
      exact ih (applyTransactions_eq_ok_iff.mp hrest)
  | pair hdecode htype hstep _ ih =>
      have hrun := applyTransactions_eq_ok_iff.mpr h
      rw [List.cons_append, List.cons_append, applyTransactions_cons_pair hdecode htype] at hrun
      obtain ⟨s₁, hstep', hrest⟩ := bind_eq_ok_iff.mp hrun
      obtain rfl := Except.ok.inj (hstep.symm.trans hstep')
      exact ih (applyTransactions_eq_ok_iff.mp hrest)

/-! ## Consistency of reconstructed states -/

/-- What `prior_valid` checks of the tip of a state, beside the room of its components. -/
structure Anchored (c : ChainContext) (s : ChainState) : Prop where
  networkId : s.networkId = c.networkId
  activation : chainPublicationActivation c = .ok s.publicationActivationHeight
  currentTarget : s.currentTarget = 0
  cumulativeWork : s.cumulativeWork = 0
  anchor : priorAnchorValid c s = .ok ()

/-- A block that continues an anchored state leaves an anchored state. -/
theorem CandidatePrepared.anchor {c : ChainContext} {prior next : ChainState} {bytes : Bytes}
    {reconstruct : Bool} {b : Block} {flags : CandidateFlags} {candidate : ChainState}
    {id : Octets 32} (h : CandidatePrepared c prior bytes reconstruct b flags candidate)
    (hprior : priorAnchorValid c prior = .ok ()) (hid : chainBlockId bytes c.hashProvider = .ok id)
    (hne : id ≠ 0) (hnext : next = advanceTip prior b id) :
    priorAnchorValid c next = .ok () := by
  subst hnext
  have hlink := h.link
  simp only [linkFailure] at hlink
  split at hlink
  · simp at hlink
  split at hlink
  · next htip =>
      have htip : prior.hasTip = false := by simpa using htip
      split at hlink
      · simp at hlink
      next hbytes =>
      have hdecode := h.decode
      rw [not_not.mp hbytes] at hid hdecode
      simp [priorAnchorValid, advanceTip, htip, hid, hdecode]
      exact hne
  · next htip =>
      have htip : prior.hasTip = true := by simpa using htip
      split at hlink
      · simp at hlink
      next hheight =>
      split at hlink
      · simp at hlink
      split at hlink
      · simp at hlink
      next htimestamp =>
      obtain ⟨hmax, hsucc⟩ := not_or.mp hheight
      have hpositive : b.header.height ≠ 0 := by
        rw [not_not.mp hsucc]
        intro hzero
        exact hmax (by rw [← UInt64.sub_eq_iff_eq_add.mpr hzero.symm]; rfl)
      simp only [priorAnchorValid, htip, Bool.not_true, Bool.false_eq_true, if_false] at hprior
      split at hprior
      · simp at hprior
      next anchor hanchor =>
      split at hprior
      · simp at hprior
      next hids =>
      split at hprior
      · simp at hprior
      next genesis hgenesis =>
      split at hprior
      · simp at hprior
      next hbelow =>
      obtain ⟨hzero, -, hsame⟩ := by simpa only [not_or] using hids
      have hlate : ¬ b.header.timestamp < genesis.header.timestamp := by
        have hfirst := (not_or.mp hbelow).1
        rw [UInt64.lt_iff_toNat_lt] at htimestamp hfirst ⊢
        omega
      rw [not_not] at hsame
      simp [priorAnchorValid, advanceTip, htip, hanchor, hgenesis, hpositive, hlate, hsame]
      exact ⟨hsame ▸ hzero, hne⟩

/-- Without proof of work every reconstructed state is consistent. -/
theorem Reaches.anchored {c : ChainContext} (hpolicy : c.powPolicy = none)
    {blocks : List Bytes} {s : ChainState} (h : Reaches c blocks s) : Anchored c s := by
  refine h.invariant (P := fun _ s => Anchored c s) ?_ ?_
  · intro s hs
    obtain ⟨-, activation, hactivation, rfl⟩ := chainInitialize_eq_ok hs
    exact ⟨rfl, hactivation, rfl, rfl, by simp [priorAnchorValid, emptyState]⟩
  · intro past s bytes b flags candidate s' _ hs hprepared happlied
    obtain ⟨id, next, hid, hne, hworked, htip, -⟩ := hprepared.next_state
    simp only [CandidateWorked, hpolicy] at hworked
    have hanchor := hprepared.anchor hs.anchor hid hne hworked
    have hsame := htip.trans happlied.sameTip
    subst hworked
    have hkeep : priorAnchorValid c s' = priorAnchorValid c (advanceTip s b id) := by
      simp only [priorAnchorValid, hsame.hasTip, hsame.height, hsame.timestamp, hsame.tipId,
        hsame.genesisId]
    exact ⟨hsame.networkId.trans hs.networkId,
      hs.activation.trans (congrArg _ hsame.activation.symm),
      hsame.currentTarget.trans hs.currentTarget,
      hsame.cumulativeWork.trans hs.cumulativeWork, hkeep.trans hanchor⟩

theorem Anchored.priorValid {c : ChainContext} (hpolicy : c.powPolicy = none) {s : ChainState}
    (h : Anchored c s) (hs : s.Stored) : priorValid c s = .ok () := by
  have hwork : priorWorkValid c s = .ok () := by
    simp [priorWorkValid, hpolicy, h.currentTarget, h.cumulativeWork]
  simp [StnChain.priorValid, h.activation, h.networkId, not_lt.mpr hs.evidence,
    not_lt.mpr hs.transfers, hwork, h.anchor]

/-! ## Offered rewards -/

/-- Every check of a candidate before its components are copied passes. -/
structure CandidateChecked (c : ChainContext) (prior : ChainState) (bytes : Bytes) (b : Block)
    (flags : CandidateFlags) : Prop where
  context : contextValid c = .ok ()
  decode : blockDecode bytes = .ok b
  version : b.header.version = requiredVersion c
  consistent : priorValid c prior = .ok ()
  link : linkFailure c prior b bytes = none
  integrity : blockCheckIntegrity bytes c.hashProvider = .ok ()
  scan : scanBody c prior b.header.height b.transactions {} = .ok flags
  work : ∃ id next, chainBlockId bytes c.hashProvider = .ok id ∧ id ≠ 0 ∧
    CandidateWorked c prior b id next

/-- A checked candidate of a stored prior is prepared. -/
theorem CandidateChecked.prepared {c : ChainContext} {prior : ChainState} {bytes : Bytes}
    {b : Block} {flags : CandidateFlags} (h : CandidateChecked c prior bytes b flags)
    (hprior : prior.Stored) (reconstruct : Bool) :
    ∃ candidate, CandidatePrepared c prior bytes reconstruct b flags candidate := by
  obtain ⟨id, next, hid, hne, hworked⟩ := h.work
  have hnext : next.Stored := by
    have hworked' := hworked
    simp only [CandidateWorked] at hworked'
    split at hworked'
    · obtain rfl := hworked'
      exact { hprior with }
    · obtain ⟨-, -, work, -, rfl⟩ := hworked'
      exact { hprior with }
  obtain ⟨candidate, hcomponents⟩ := candidateComponents_isSome hnext flags
    b.header.transactionCount.toNat reconstruct
  exact ⟨candidate, h.context, h.decode, h.version, h.consistent, h.link, h.integrity, h.scan,
    id, next, hid, hne, hworked, hcomponents⟩

/-- A reward pair in the body of a block, between its other transactions. -/
structure RewardOffer where
  before : List Bytes
  evidenceTx : Bytes
  issuanceTx : Bytes
  after : List Bytes
  evidence : BlockCompensationEvidence
  issuance : IssuanceRecord

/-- The block evidence that comes before a pair: that of the history, then that of
the body before it. -/
def RewardOffer.earlier (o : RewardOffer) (blocks : List Bytes) :
    List BlockCompensationEvidence :=
  historyBlockEvidence blocks ++
    (decodedTransactions o.before).filterMap Transaction.blockEvidence

/-- The next block of a history carries a pair that rewards an accepted block for the
first time, and is valid in everything else: its other checks pass, the pair is bound to a
destination, the supply does not overflow, and the other transactions apply.  The digest of
the evidence is not zero and not that of earlier evidence. -/
structure RewardOffer.Sound (o : RewardOffer) (c : ChainContext) (blocks : List Bytes)
    (s : ChainState) (bytes : Bytes) (reconstruct : Bool) : Prop where
  checked : ∃ b flags, CandidateChecked c s bytes b flags ∧
    b.transactions = o.before ++ o.evidenceTx :: o.issuanceTx :: o.after
  evidence : ∃ tx, transactionDecode o.evidenceTx = .ok tx ∧ tx.blockEvidence = some o.evidence
  issuance : ∃ tx, transactionDecode o.issuanceTx = .ok tx ∧
    tx.issuance issuanceReasonBlock = some o.issuance
  accepted : ∃ block ∈ blocks, chainBlockId block c.hashProvider = .ok o.evidence.blockId
  unrewarded : ∀ e ∈ o.earlier blocks, e.blockId ≠ o.evidence.blockId
  separate : ∀ e ∈ o.earlier blocks,
    blockCompensationId e = blockCompensationId o.evidence → e = o.evidence
  nonzero : blockCompensationId o.evidence ≠ .ok 0
  applies : ∀ b flags candidate, CandidatePrepared c s bytes reconstruct b flags candidate →
    ∃ mid, Applied (candidateEnv c s (some blocks) b flags) o.before candidate mid ∧
      issuanceBindBlock o.issuance o.evidence mid.compensation = .ok () ∧
      mid.economy.state.totalSupply.toNat + issuanceBlockUnits.toNat < 2 ^ 64 ∧
      ∀ tx after, transactionDecode o.evidenceTx = .ok tx →
        applyPair (candidateEnv c s (some blocks) b flags) tx o.issuanceTx mid = .ok after →
        ∃ s', Applied (candidateEnv c s (some blocks) b flags) o.after after s'

omit [Primitives] in
theorem blockEvidence_eq_some_iff {tx : Transaction} {e : BlockCompensationEvidence} :
    tx.blockEvidence = some e ↔
      tx.type = .blockCompensationEvidence ∧ blockCompensationDecode tx.record = .ok e := by
  simp only [Transaction.blockEvidence]
  split
  next htype =>
    cases hdecode : blockCompensationDecode tx.record with
    | ok e' => simp [Except.toOption, htype]
    | error status => simp [Except.toOption]
  next htype => simp [htype]

/-- The identifiers consumed when a pair is reached are those of the earlier evidence. -/
theorem RewardOffer.consumed_ids {o : RewardOffer} {c : ChainContext} {blocks : List Bytes}
    {s candidate mid : ChainState} {env : CandidateEnv} (h : Reaches c blocks s)
    (hinherit : ComponentsOf s candidate) (hbefore : Applied env o.before candidate mid) :
    mid.blockCompensation.ids.map Except.ok = (o.earlier blocks).map blockCompensationId := by
  have hhistory := h.log evidenceIds_advance fun _ => rfl
  have hbody := hbefore.log evidenceIds_advance
  rw [evidenceIds_advance.inherit hinherit, hhistory] at hbody
  rw [hbody, RewardOffer.earlier, historyBlockEvidence, List.map_append, List.map_filterMap,
    List.map_filterMap]

/-- A block whose pair is accepted came after fewer rewards than the store has entries. -/
theorem RewardOffer.Sound.room {o : RewardOffer} {c : ChainContext} {blocks : List Bytes}
    {s s' : ChainState} {bytes : Bytes} {reconstruct : Bool} {r : ChainReport}
    (ho : o.Sound c blocks s bytes reconstruct) (h : Reaches c blocks s)
    (hvalid : validateCandidate c s (some blocks) bytes reconstruct = .ok (r, s')) :
    (o.earlier blocks).length < blockCompensationReplayCapacity := by
  obtain ⟨b, flags, candidate, hprepared, happlied, -⟩ := validateCandidate_eq_ok_iff.mp hvalid
  obtain ⟨b', flags', hchecked, hbody⟩ := ho.checked
  obtain rfl := Except.ok.inj (hprepared.decode.symm.trans hchecked.decode)
  obtain ⟨mid, hbefore, -⟩ := ho.applies b flags candidate hprepared
  obtain ⟨-, -, -, -, -, -, hinherit⟩ := hprepared.next_state
  have hids := congrArg List.length (RewardOffer.consumed_ids h hinherit hbefore)
  rw [List.length_map, List.length_map] at hids
  obtain ⟨tx, hdecode, hevidence⟩ := ho.evidence
  obtain ⟨htype, -⟩ := blockEvidence_eq_some_iff.mp hevidence
  rw [hbody] at happlied
  have hrun := applyTransactions_eq_ok_iff.mpr (happlied.of_append hbefore)
  rw [applyTransactions_cons_pair hdecode htype] at hrun
  obtain ⟨after, hpair, -⟩ := bind_eq_ok_iff.mp hrun
  obtain ⟨_, _, _, _, _, _, _, _, _, _, _, _, hconsume, -⟩ := applyPair_eq_ok hpair
  obtain ⟨_, _, _, _, _, hroom⟩ := consumeEvidence_eq_ok hconsume
  exact hids ▸ hroom

/-- While the store has an entry left, a block that is valid but for its pair is accepted. -/
theorem RewardOffer.Sound.accepts {o : RewardOffer} {c : ChainContext} {blocks : List Bytes}
    {s : ChainState} {bytes : Bytes} {reconstruct : Bool}
    (ho : o.Sound c blocks s bytes reconstruct) (h : Reaches c blocks s)
    (hroom : (o.earlier blocks).length < blockCompensationReplayCapacity) :
    ∃ r s', validateCandidate c s (some blocks) bytes reconstruct = .ok (r, s') := by
  have hstored := h.preserves stored_preserved (emptyState_stored c)
  obtain ⟨b, flags, hchecked, hbody⟩ := ho.checked
  obtain ⟨candidate, hprepared⟩ := hchecked.prepared hstored reconstruct
  obtain ⟨mid, hbefore, hbind, hsupply, hafter⟩ := ho.applies b flags candidate hprepared
  obtain ⟨tx, hdecode, hevidence⟩ := ho.evidence
  obtain ⟨tx', hdecode', hissuance⟩ := ho.issuance
  obtain ⟨htype, he⟩ := blockEvidence_eq_some_iff.mp hevidence
  obtain ⟨htype', hr, -⟩ := issuance_eq_some_iff.mp hissuance
  obtain ⟨-, -, -, -, -, -, hinherit⟩ := hprepared.next_state
  have hmid := hbefore.preserves stored_preserved (stored_preserved.inherit hinherit hstored)
  have hids := RewardOffer.consumed_ids h hinherit hbefore
  have hlen := congrArg List.length hids
  rw [List.length_map, List.length_map] at hlen
  have hid := issuanceBindBlock_evidenceId hbind
  have hfresh : o.issuance.evidenceId ∉ mid.blockCompensation.ids := by
    intro hmem
    have hmem' : (.ok o.issuance.evidenceId : Except DataStatus (Octets 32)) ∈
        (o.earlier blocks).map blockCompensationId := hids ▸ List.mem_map_of_mem hmem
    obtain ⟨e, hearlier, heq⟩ := List.mem_map.mp hmem'
    obtain rfl := ho.separate e hearlier (heq.trans hid.symm)
    exact ho.unrewarded _ hearlier rfl
  have haccepted : blockAccepted (candidateEnv c s (some blocks) b flags) o.evidence.blockId =
      .ok () := by
    have hfound := historyContains_of_mem (fun _ => h.blockId_of_mem) ho.accepted
    simp only [blockAccepted, candidateEnv, hfound, ↓reduceIte]
  have hbalances : mid.economy.state.balances.length < mid.economy.state.capacity := by
    have hflag := (scanBody_blockCompensation hchecked.scan).2 o.evidenceTx (by simp [hbody])
      tx hdecode htype
    have hspace := hprepared.balances_room hflag
    obtain ⟨hcapacity, hgrown⟩ := hbefore.balances_le
    have hcount := Block.count_le hchecked.decode
    have hsize := congrArg List.length hbody
    simp only [Block.length_transactions, List.length_append, List.length_cons] at hsize
    omega
  obtain ⟨after, hpair⟩ := applyPair_isOk hdecode htype he haccepted hdecode' htype' hr hbind
    hmid (fun hzero => ho.nonzero (hzero ▸ hid)) hfresh hbalances hsupply (hlen ▸ hroom)
  obtain ⟨s', hrest⟩ := hafter tx after hdecode hpair
  refine ⟨_, s', validateCandidate_eq_ok_iff.mpr ⟨b, flags, candidate, hprepared, ?_, rfl⟩⟩
  rw [hbody]
  exact hbefore.append (.pair hdecode htype hpair hrest)

/-- A block that is valid but for its reward pair is accepted exactly when fewer
rewards came before than the replay store has entries. -/
theorem reward_accepted_iff {c : ChainContext} {blocks : List Bytes} {s : ChainState}
    {bytes : Bytes} {reconstruct : Bool} {o : RewardOffer} (h : Accepts c blocks s)
    (ho : o.Sound c blocks s bytes reconstruct) :
    (∃ r s', validateCandidate c s (some blocks) bytes reconstruct = .ok (r, s')) ↔
      (o.earlier blocks).length < blockCompensationReplayCapacity := by
  obtain ⟨-, hreach⟩ := accepts_iff.mp h
  constructor
  · rintro ⟨r, s', hvalid⟩
    exact ho.room hreach hvalid
  · exact ho.accepts hreach

end

end StnChain

namespace StnChain.Sample

/-- Digests that tell the blocks of one chain apart by height, the transactions of
one block by type and evidence by the block it names. -/
def countingHash : HashFunction := fun domain bytes =>
  if domain = cString "STN-CHAIN:BLOCK:ID:1" then .ok (BitVec.ofNat 256 (wireRead bytes 72 8 + 1))
  else if domain = cString "STN-CHAIN:TX:ID:1" then .ok (BitVec.ofNat 256 (wireRead bytes 6 2))
  else if domain = cString "STN-CHAIN:BLOCK-COMPENSATION:ID:1" then .ok (octetsAt bytes 1 32)
  else .ok 1

@[reducible] def countingPrimitives : Primitives where
  sha256 := countingHash
  ed25519Verify _ _ _ := false

/-- The identifier of the block at a height. -/
def countingId (height : ℕ) : Octets 32 := BitVec.ofNat 256 (height + 1)

def countingHeader (previous : Octets 32) (height : ℕ) (ts : List Bytes) : BlockHeader where
  version := 1
  flags := 0
  networkId := 1
  previousHash := previous
  height := UInt64.ofNat height
  timestamp := 0
  transactionCommitment := 1
  reservedTarget := 0
  reservedWorkNonce := 0
  transactionCount := UInt32.ofNat ts.length
  bodyLength := UInt32.ofNat (bodyBytes ts).length

/-- A block without proof of work. -/
def countingBlock (previous : Octets 32) (height : ℕ) (ts : List Bytes) : Bytes :=
  blockHeaderBytes (countingHeader previous height ts) ++ bodyBytes ts

/-- The pair that rewards the block at a height. -/
def countingPair (height : ℕ) : List Bytes :=
  [evidence (countingId height) alice,
    issuance issuanceReasonBlock issuanceBlockUnits (countingId height) alice]

/-- A block whose parent is rewarded in it. -/
def countingReward (height : ℕ) : Bytes :=
  countingBlock (countingId height) (height + 1) (countingPair height)

def countingGenesis : Bytes := countingBlock 0 0 []

def countingContext : ChainContext where
  networkId := 1
  genesisBytes := countingGenesis
  genesisAuthorityRoots := []
  genesisInitialIdentities := []
  hashProvider := ⟨some countingHash⟩
  powPolicy := none

/-- A destination, and the rewards of `n` blocks from there on. -/
def countingChain (n : ℕ) : List Bytes :=
  [countingGenesis, countingBlock (countingId 0) 1 [destination alice]] ++
    (List.range n).map fun i => countingReward (i + 1)

attribute [local instance] countingPrimitives

theorem digest_countingHash (domain bytes : Bytes) :
    HashProvider.digest ⟨some countingHash⟩ domain bytes = countingHash domain bytes := by
  simp only [HashProvider.digest, countingHash]
  split_ifs <;> rfl

theorem countingHash_block (bytes : Bytes) :
    countingHash (cString "STN-CHAIN:BLOCK:ID:1") bytes =
      .ok (BitVec.ofNat 256 (wireRead bytes 72 8 + 1)) :=
  if_pos rfl

theorem countingHash_transaction (bytes : Bytes) :
    countingHash (cString "STN-CHAIN:TX:ID:1") bytes =
      .ok (BitVec.ofNat 256 (wireRead bytes 6 2)) := by
  rw [countingHash, if_neg (by decide), if_pos rfl]

theorem countingHash_evidence (bytes : Bytes) :
    countingHash (cString "STN-CHAIN:BLOCK-COMPENSATION:ID:1") bytes =
      .ok (octetsAt bytes 1 32) := by
  rw [countingHash, if_neg (by decide), if_neg (by decide), if_pos rfl]

theorem countingHash_body (bytes : Bytes) :
    countingHash (cString "STN-CHAIN:BLOCK:BODY:1") bytes = .ok 1 := by
  rw [countingHash, if_neg (by decide), if_neg (by decide), if_neg (by decide)]

theorem toNat_countingId {height : ℕ} (h : height < 2 ^ 64) :
    (countingId height).toNat = height + 1 := by
  rw [countingId, BitVec.toNat_ofNat, Nat.mod_eq_of_lt]
  omega

theorem countingId_ne_zero {height : ℕ} (h : height < 2 ^ 64) : countingId height ≠ 0 := by
  intro hzero
  have hnat := toNat_countingId h
  rw [hzero] at hnat
  simp at hnat

theorem countingId_injective {m n : ℕ} (hm : m < 2 ^ 64) (hn : n < 2 ^ 64)
    (h : countingId m = countingId n) : m = n := by
  have hnat := congrArg BitVec.toNat h
  rw [toNat_countingId hm, toNat_countingId hn] at hnat
  omega

/-- The evidence for the block at a height. -/
def countingEvidence (height : ℕ) : BlockCompensationEvidence :=
  ⟨countingId height, alice.miningIdentity⟩

/-- The issuance for the block at a height. -/
def countingIssuance (height : ℕ) : IssuanceRecord :=
  ⟨issuanceReasonBlock, issuanceBlockUnits, countingId height, alice⟩

theorem countingEvidence_encode {height : ℕ} (h : height < 2 ^ 64) :
    blockCompensationEncode (countingEvidence height) =
      .ok ([1] ++ octetBytes (countingId height) ++
        octetBytes alice.miningIdentity.identifier) := by
  have hne : (countingEvidence height).blockId ≠ 0 := countingId_ne_zero h
  have halice : (countingEvidence height).miner.identifier ≠ 0 := by
    show alice.miningIdentity.identifier ≠ 0
    decide
  have htype : (countingEvidence height).miner.type = .identity := rfl
  rw [blockCompensationEncode, if_neg (not_not.mpr htype), if_neg (not_or.mpr ⟨hne, halice⟩)]
  rfl

theorem countingEvidence_id {height : ℕ} (h : height < 2 ^ 64) :
    blockCompensationId (countingEvidence height) = .ok (countingId height) := by
  simp only [blockCompensationId, countingEvidence_encode h]
  show countingHash _ _ = _
  rw [countingHash_evidence]
  simp (disch := simp) only [List.append_assoc, octetsAt_append_right, octetsAt_append_left,
    octetsAt_octetBytes, List.length_cons, List.length_nil, Nat.reduceAdd, Nat.reduceSub]

theorem countingIssuance_encode (height : ℕ) :
    issuanceEncode (countingIssuance height) = .ok (issuanceBytes (countingIssuance height)) := rfl

/-- Both transactions of a pair decode. -/
theorem counting_evidence_decode {height : ℕ} (h : height < 2 ^ 64) :
    ∃ tx, transactionDecode (evidence (countingId height) alice) = .ok tx ∧
      tx.type = .blockCompensationEvidence ∧
      blockCompensationDecode tx.record = .ok (countingEvidence height) := by
  have hdecode := blockCompensationDecode_of_encode (countingEvidence_encode h)
  have hrecord : recordMatchesType .blockCompensationEvidence
      ([1] ++ octetBytes (countingId height) ++ octetBytes alice.miningIdentity.identifier) =
        .ok () := by
    simp only [recordMatchesType, blockCompensationStructure_of_decode hdecode, if_true]
  have hlen : txHeaderSize + ([1] ++ octetBytes (countingId height) ++
      octetBytes alice.miningIdentity.identifier).length ≤ txMaxSize := by
    simp [txHeaderSize, txMaxSize]
  exact ⟨_, transactionDecode_bytes hlen hrecord, rfl, hdecode⟩

theorem counting_issuance_decode (height : ℕ) :
    ∃ tx, transactionDecode
        (issuance issuanceReasonBlock issuanceBlockUnits (countingId height) alice) = .ok tx ∧
      tx.type = .issuance ∧ issuanceDecode tx.record = .ok (countingIssuance height) := by
  have hdecode := issuanceDecode_of_encode (countingIssuance_encode height)
  have hrecord : recordMatchesType .issuance (issuanceBytes (countingIssuance height)) =
      .ok () := by
    simp [recordMatchesType, hdecode, Except.toBool]
  have hlen : txHeaderSize + (issuanceBytes (countingIssuance height)).length ≤ txMaxSize := by
    rw [length_issuanceBytes, txHeaderSize, txMaxSize, issuanceCanonicalSize]
    norm_num
  exact ⟨_, transactionDecode_bytes hlen hrecord, rfl, hdecode⟩

theorem counting_carried {height : ℕ} (h : height < 2 ^ 64) :
    ∀ t ∈ countingPair height, Carried t := by
  intro t ht
  simp only [countingPair, List.mem_cons, List.not_mem_nil, or_false] at ht
  rcases ht with rfl | rfl
  · obtain ⟨tx, hdecode, -⟩ := counting_evidence_decode h
    exact ⟨⟨tx, hdecode⟩, by simp [evidence, transaction, txMinSize]⟩
  · obtain ⟨tx, hdecode, -⟩ := counting_issuance_decode height
    refine ⟨⟨tx, hdecode⟩, ?_⟩
    simp [issuance, transaction, txMinSize, issuanceCanonicalSize]

theorem length_countingPair (height : ℕ) : (bodyBytes (countingPair height)).length = 203 := by
  simp [countingPair, bodyBytes, evidence, issuance, transaction, issuanceCanonicalSize]

/-- A block that rewards its parent decodes. -/
theorem counting_decode {height : ℕ} (h : height + 1 < 2 ^ 64) :
    blockDecode (countingReward height) = .ok
      ⟨countingHeader (countingId height) (height + 1) (countingPair height),
        bodyBytes (countingPair height)⟩ := by
  have hbody := length_countingPair height
  have hheight : UInt64.ofNat (height + 1) ≠ 0 := by
    intro hzero
    have hnat := congrArg UInt64.toNat hzero
    rw [UInt64.toNat_ofNat', Nat.mod_eq_of_lt h] at hnat
    simp at hnat
  have hprevious := countingId_ne_zero (Nat.lt_of_succ_lt h)
  have hvalid : headerValid
      (countingHeader (countingId height) (height + 1) (countingPair height)) = .ok () := by
    have hlink : ¬ ((UInt64.ofNat (height + 1) = 0) = (countingId height ≠ 0)) := by
      rw [eq_iff_iff]
      exact fun hiff => hheight (hiff.mpr hprevious)
    have hcount : (countingPair height).length = 2 := rfl
    simp only [headerValid, countingHeader, hbody, hcount, if_neg hlink]
    decide
  refine blockDecode_bytes hvalid (counting_carried (Nat.lt_of_succ_lt h)) ?_ ?_ ?_
  · rfl
  · rw [countingHeader, hbody]
    rfl
  · simp [countingPair, blockMaxTransactions]

theorem counting_transactions {height : ℕ} (h : height < 2 ^ 64) :
    bodyTransactions 2 (bodyBytes (countingPair height)) = countingPair height :=
  bodyTransactions_bytes (counting_carried h)

theorem counting_blockId {height : ℕ} (h : height + 1 < 2 ^ 64) :
    chainBlockId (countingReward height) countingContext.hashProvider =
      .ok (countingId (height + 1)) := by
  have htake : (countingReward height).take blockHeaderSize =
      blockHeaderBytes (countingHeader (countingId height) (height + 1) (countingPair height)) :=
    List.take_left' (length_blockHeaderBytes _)
  simp only [chainBlockId, blockValidateStructure, counting_decode h, htake]
  rw [countingContext, digest_countingHash, countingHash_block, wireRead_height_blockHeaderBytes,
    countingHeader, UInt64.toNat_ofNat', Nat.mod_eq_of_lt h, countingId]

theorem counting_integrity {height : ℕ} (h : height + 1 < 2 ^ 64) :
    blockCheckIntegrity (countingReward height) countingContext.hashProvider = .ok () := by
  obtain ⟨tx, hdecode, -⟩ := counting_evidence_decode (Nat.lt_of_succ_lt h)
  obtain ⟨tx', hdecode', -⟩ := counting_issuance_decode height
  have hid : transactionId (evidence (countingId height) alice) countingContext.hashProvider =
      .ok 10 := by
    have htype : wireRead (evidence (countingId height) alice) 6 2 = 10 :=
      wireRead_type_transactionBytes _ _
    simp only [transactionId, hdecode]
    rw [countingContext, digest_countingHash, countingHash_transaction, htype]
    rfl
  have hid' : transactionId
      (issuance issuanceReasonBlock issuanceBlockUnits (countingId height) alice)
        countingContext.hashProvider = .ok 8 := by
    have htype : wireRead
        (issuance issuanceReasonBlock issuanceBlockUnits (countingId height) alice) 6 2 = 8 :=
      wireRead_type_transactionBytes _ _
    simp only [transactionId, hdecode']
    rw [countingContext, digest_countingHash, countingHash_transaction, htype]
    rfl
  have hdistinct : distinctIds countingContext.hashProvider [] (countingPair height) = .ok () := by
    simp only [countingPair, distinctIds, hid, hid']
    decide
  have hcommitment : blockBodyCommitment (bodyBytes (countingPair height)) 2
      countingContext.hashProvider = .ok 1 := by
    have hstructure := blockBodyValidateStructure_bytes
      (counting_carried (Nat.lt_of_succ_lt h)) (by simp [countingPair, blockMaxTransactions])
    have hcount : (countingPair height).length = 2 := rfl
    rw [hcount] at hstructure
    simp only [blockBodyCommitment, hstructure]
    rw [countingContext, digest_countingHash, countingHash_body]
  have hcount : (countingHeader (countingId height) (height + 1)
      (countingPair height)).transactionCount.toNat = 2 := rfl
  simp only [blockCheckIntegrity, counting_decode h, Block.transactions, hcount,
    counting_transactions (Nat.lt_of_succ_lt h), hdistinct, hcommitment]
  rfl

theorem counting_scan {height : ℕ} (h : height < 2 ^ 64) (prior : ChainState) (next : UInt64) :
    scanBody countingContext prior next (countingPair height) {} =
      .ok { blockCompensation := true, issuance := true } := by
  obtain ⟨tx, hdecode, htype, -⟩ := counting_evidence_decode h
  obtain ⟨tx', hdecode', htype', -⟩ := counting_issuance_decode height
  simp only [countingPair, scanBody, scanTransaction, hdecode, htype, hdecode', htype']

/-- The pair that rewards the block at a height, as an offer. -/
def countingOffer (height : ℕ) : RewardOffer where
  before := []
  evidenceTx := evidence (countingId height) alice
  issuanceTx := issuance issuanceReasonBlock issuanceBlockUnits (countingId height) alice
  after := []
  evidence := countingEvidence height
  issuance := countingIssuance height

theorem countingChain_succ (n : ℕ) :
    countingChain (n + 1) = countingChain n ++ [countingReward (n + 1)] := by
  simp [countingChain, List.range_succ]

theorem length_countingChain (n : ℕ) : (countingChain n).length = n + 2 := by
  simp [countingChain]

/-- What is known of the state after `n` rewards. -/
structure CountingAt (n : ℕ) (s : ChainState) : Prop where
  accepts : Accepts countingContext (countingChain n) s
  tipId : s.tipId = countingId (n + 1)
  timestamp : s.timestamp = 0
  mapped : MapsTo alice.miningIdentity alice.wallet s
  supply : s.economy.state.totalSupply.toNat = 10000 * n
  evidence : historyBlockEvidence (countingChain n) =
    (List.range n).map fun i => countingEvidence (i + 1)

theorem countingAt_zero : ∃ s, CountingAt 0 s := by
  obtain ⟨s, hs, hcheck⟩ := accepts_of_any countingContext (countingChain 0)
    (fun s => compensationStateLookup s.compensation alice.miningIdentity = .ok alice.wallet ∧
      s.tipId = countingId 1 ∧ s.timestamp = 0 ∧ s.economy.state.totalSupply.toNat = 0)
    (by decide +kernel)
  obtain ⟨hlookup, htipId, htimestamp, hsupply⟩ := of_decide_eq_true hcheck
  obtain ⟨-, hreach⟩ := accepts_iff.mp hs
  have hmapped := hreach.preserves wellFormed_preserved (emptyState_wellFormed countingContext)
  have hevidence : historyBlockEvidence (countingChain 0) = [] := by decide +kernel
  exact ⟨s, hs, htipId, htimestamp, ⟨hmapped, hlookup⟩, hsupply, hevidence⟩

theorem CountingAt.earlier {n : ℕ} {s : ChainState} (h : CountingAt n s) :
    (countingOffer (n + 1)).earlier (countingChain n) =
      (List.range n).map fun i => countingEvidence (i + 1) := by
  rw [RewardOffer.earlier, h.evidence]
  simp [countingOffer]

/-- The last block of the chain is accepted. -/
theorem CountingAt.accepted {n : ℕ} {s : ChainState} (h : CountingAt n s) :
    ∃ block ∈ countingChain n,
      chainBlockId block countingContext.hashProvider = .ok (countingId (n + 1)) := by
  obtain ⟨-, hreach⟩ := accepts_iff.mp h.accepts
  have hsplit : countingChain n = (countingChain n).dropLast ++
      [(countingChain n).getLast (by simp [countingChain])] :=
    (List.dropLast_append_getLast _).symm
  exact ⟨_, List.getLast_mem _, h.tipId ▸ hreach.tipOf.tipId _ _ hsplit⟩

theorem counting_bound {height : ℕ} (h : height < 2 ^ 64) {s : ChainState}
    (hs : MapsTo alice.miningIdentity alice.wallet s) :
    issuanceBindBlock (countingIssuance height) (countingEvidence height) s.compensation =
      .ok () := by
  have hid := countingEvidence_id h
  have hlookup : compensationStateLookup s.compensation (countingEvidence height).miner =
    .ok alice.wallet := hs.2
  simp only [issuanceBindBlock, hid, hlookup, bind, Except.bind]
  simp [countingIssuance, countingEvidence, alice]
  rfl

/-- The next pair is valid but for the room it needs. -/
theorem CountingAt.sound {n : ℕ} {s : ChainState} (h : CountingAt n s) (hn : n ≤ 4096) :
    (countingOffer (n + 1)).Sound countingContext (countingChain n) s (countingReward (n + 1))
      true := by
  have hsmall : n + 1 + 1 < 2 ^ 64 := by omega
  obtain ⟨-, hreach⟩ := accepts_iff.mp h.accepts
  have hstored := hreach.preserves stored_preserved (emptyState_stored countingContext)
  have htip := hreach.tipOf
  have hnonempty : countingChain n ≠ [] := by
    intro hnil
    have hlen := length_countingChain n
    rw [hnil] at hlen
    simp at hlen
  have hhas := htip.hasTip.mpr hnonempty
  have hheight := htip.height hnonempty
  rw [length_countingChain] at hheight
  have hearlier := h.earlier
  obtain ⟨tx, hdecode, htype, he⟩ := counting_evidence_decode (Nat.lt_of_succ_lt hsmall)
  obtain ⟨tx', hdecode', htype', hr⟩ := counting_issuance_decode (n + 1)
  have hnumber {e : BlockCompensationEvidence}
      (he : e ∈ (countingOffer (n + 1)).earlier (countingChain n)) :
      ∃ i < n, e = countingEvidence (i + 1) := by
    rw [hearlier] at he
    obtain ⟨i, hi, rfl⟩ := List.mem_map.mp he
    exact ⟨i, List.mem_range.mp hi, rfl⟩
  have hlink : linkFailure countingContext s
      ⟨countingHeader (countingId (n + 1)) (n + 1 + 1) (countingPair (n + 1)),
        bodyBytes (countingPair (n + 1))⟩ (countingReward (n + 1)) = none := by
    have hmax : s.height ≠ uint64Max := by
      intro heq
      rw [heq] at hheight
      simp [uint64Max] at hheight
      omega
    have hnext : UInt64.ofNat (n + 1 + 1) = s.height + 1 := by
      apply UInt64.toNat_inj.mp
      rw [UInt64.toNat_ofNat', UInt64.toNat_add, UInt64.toNat_one]
      omega
    simp [linkFailure, countingHeader, countingContext, hhas, hmax, hnext, h.tipId, h.timestamp]
  have hcount : (countingHeader (countingId (n + 1)) (n + 1 + 1)
      (countingPair (n + 1))).transactionCount.toNat = 2 := rfl
  have hbody : (⟨countingHeader (countingId (n + 1)) (n + 1 + 1) (countingPair (n + 1)),
      bodyBytes (countingPair (n + 1))⟩ : Block).transactions = countingPair (n + 1) := by
    rw [Block.transactions, hcount]
    exact counting_transactions (Nat.lt_of_succ_lt hsmall)
  have hchecked : CandidateChecked countingContext s (countingReward (n + 1))
      ⟨countingHeader (countingId (n + 1)) (n + 1 + 1) (countingPair (n + 1)),
        bodyBytes (countingPair (n + 1))⟩ { blockCompensation := true, issuance := true } := {
    context := by decide +kernel
    decode := counting_decode hsmall
    version := rfl
    consistent := (hreach.anchored rfl).priorValid rfl hstored
    link := hlink
    integrity := counting_integrity hsmall
    scan := by
      rw [hbody]
      exact counting_scan (Nat.lt_of_succ_lt hsmall) _ _
    work := ⟨_, _, counting_blockId hsmall, countingId_ne_zero hsmall, rfl⟩ }
  refine {
    checked := ⟨_, _, hchecked, hbody⟩
    evidence := ⟨tx, hdecode, blockEvidence_eq_some_iff.mpr ⟨htype, he⟩⟩
    issuance := ⟨tx', hdecode', issuance_eq_some_iff.mpr ⟨htype', hr, rfl⟩⟩
    accepted := h.accepted
    unrewarded := ?_
    separate := ?_
    nonzero := ?_
    applies := ?_ }
  · intro e he heq
    obtain ⟨i, hi, rfl⟩ := hnumber he
    have hsame := countingId_injective (by omega) (by omega) heq
    omega
  · intro e he heq
    obtain ⟨i, hi, rfl⟩ := hnumber he
    rw [countingEvidence_id (by omega)] at heq
    have hid : blockCompensationId (countingOffer (n + 1)).evidence = .ok (countingId (n + 1)) :=
      countingEvidence_id (by omega)
    have hsame := countingId_injective (by omega) (by omega) (Except.ok.inj (heq.trans hid))
    omega
  · intro hzero
    have hid : blockCompensationId (countingOffer (n + 1)).evidence = .ok (countingId (n + 1)) :=
      countingEvidence_id (by omega)
    exact countingId_ne_zero (by omega) (Except.ok.inj (hid.symm.trans hzero))
  · intro b flags candidate hprepared
    obtain ⟨-, -, -, -, -, -, hinherit⟩ := hprepared.next_state
    refine ⟨candidate, .nil, ?_, ?_, fun _ after _ _ => ⟨after, .nil⟩⟩
    · have hmapped := (mapsTo_preserved _ _).inherit hinherit h.mapped
      exact counting_bound (by omega) hmapped
    · rw [hinherit.supply, h.supply]
      have hunits : issuanceBlockUnits.toNat = 10000 := rfl
      omega

/-- While there is room the next pair is accepted. -/
theorem CountingAt.next {n : ℕ} {s : ChainState} (h : CountingAt n s) (hn : n < 4096) :
    ∃ s', CountingAt (n + 1) s' := by
  have hsmall : n + 1 + 1 < 2 ^ 64 := by omega
  obtain ⟨-, hreach⟩ := accepts_iff.mp h.accepts
  have hsound := h.sound hn.le
  have hearlier := h.earlier
  have hroom : ((countingOffer (n + 1)).earlier (countingChain n)).length <
      blockCompensationReplayCapacity := by
    rw [hearlier, List.length_map, List.length_range]
    exact hn
  obtain ⟨r, s', hvalid⟩ := hsound.accepts hreach hroom
  obtain ⟨b, flags, candidate, hprepared, happlied, -⟩ := validateCandidate_eq_ok_iff.mp hvalid
  have hnext : Reaches countingContext (countingChain (n + 1)) s' := by
    rw [countingChain_succ]
    exact reaches_snoc_iff.mpr ⟨s, hreach, reconstructStep_eq_ok_iff.mpr
      ⟨b, flags, candidate, hprepared, happlied⟩⟩
  obtain ⟨id, next, hid, -, hworked, htip, hinherit⟩ := hprepared.next_state
  obtain ⟨-, -, htipId, htimestamp⟩ := hworked.tip
  have hsame := htip.trans happlied.sameTip
  obtain rfl := Except.ok.inj ((counting_decode hsmall).symm.trans hprepared.decode)
  obtain rfl := Except.ok.inj ((counting_blockId hsmall).symm.trans hid)
  obtain ⟨tx, hdecode, htype, he⟩ := counting_evidence_decode (Nat.lt_of_succ_lt hsmall)
  obtain ⟨tx', hdecode', htype', hr⟩ := counting_issuance_decode (n + 1)
  have hcount : (countingHeader (countingId (n + 1)) (n + 1 + 1)
      (countingPair (n + 1))).transactionCount.toNat = 2 := rfl
  rw [Block.transactions, hcount, counting_transactions (Nat.lt_of_succ_lt hsmall)] at happlied
  have htransactions : decodedTransactions (countingPair (n + 1)) = [tx, tx'] := by
    rw [countingPair, decodedTransactions_cons hdecode, decodedTransactions_cons hdecode',
      decodedTransactions_nil]
  refine ⟨s', accepts_iff.mpr ⟨?_, hnext⟩, ?_, ?_, ?_, ?_, ?_⟩
  · simp [countingChain]
  · rw [hsame.tipId, htipId]
  · rw [hsame.timestamp, htimestamp]
    rfl
  · exact happlied.preserves (mapsTo_preserved _ _)
      ((mapsTo_preserved _ _).inherit hinherit h.mapped)
  · rw [happlied.fold supply_advances, htransactions, hinherit.supply, h.supply]
    simp only [List.foldl_cons, List.foldl_nil, issuedUnits_of_decode htype' hr,
      issuedUnits_of_type (by simp [htype] : tx.type ≠ .issuance)]
    have hunits : (countingIssuance (n + 1)).units.toNat = 10000 := rfl
    omega
  · have hdecoded : historyTransactions [countingReward (n + 1)] = [tx, tx'] := by
      rw [historyTransactions_singleton (counting_decode hsmall), Block.transactions, hcount,
        counting_transactions (Nat.lt_of_succ_lt hsmall), htransactions]
    rw [countingChain_succ, historyBlockEvidence, historyTransactions_append, hdecoded,
      List.filterMap_append, ← historyBlockEvidence, h.evidence, List.range_succ, List.map_append]
    simp [blockEvidence_eq_some_iff.mpr ⟨htype, he⟩,
      blockEvidence_of_type (by simp [htype'] : tx'.type ≠ .blockCompensationEvidence)]

theorem countingAt {n : ℕ} (hn : n ≤ 4096) : ∃ s, CountingAt n s := by
  induction n with
  | zero => exact countingAt_zero
  | succ n ih =>
      obtain ⟨s, hs⟩ := ih (Nat.le_of_succ_le hn)
      exact hs.next hn

end StnChain.Sample

namespace StnChain

section Sample

attribute [local instance] Sample.countingPrimitives

open Sample

theorem sample_reward_refused : ¬ ∀ (c : ChainContext) (blocks : List Bytes) (s : ChainState)
    (bytes : Bytes) (reconstruct : Bool) (o : RewardOffer), Accepts c blocks s →
    o.Sound c blocks s bytes reconstruct →
    ∃ r s', validateCandidate c s (some blocks) bytes reconstruct = .ok (r, s') := by
  intro h
  obtain ⟨s, hs⟩ := countingAt (le_refl 4096)
  have hsound := hs.sound (le_refl 4096)
  obtain ⟨-, hreach⟩ := accepts_iff.mp hs.accepts
  obtain ⟨r, s', hvalid⟩ := h _ _ s _ true _ hs.accepts hsound
  have hroom := hsound.room hreach hvalid
  rw [hs.earlier, List.length_map, List.length_range] at hroom
  exact absurd hroom (lt_irrefl 4096)

theorem sample_reward_accepted : ∃ s, Accepts countingContext (countingChain 0) s ∧
    ((∃ r s', validateCandidate countingContext s (some (countingChain 0)) (countingReward 1)
        true = .ok (r, s')) ↔
      ((countingOffer 1).earlier (countingChain 0)).length < blockCompensationReplayCapacity) := by
  obtain ⟨s, hs⟩ := countingAt (Nat.zero_le 4096)
  exact ⟨s, hs.accepts, reward_accepted_iff hs.accepts (hs.sound (Nat.zero_le 4096))⟩

end Sample

end StnChain
