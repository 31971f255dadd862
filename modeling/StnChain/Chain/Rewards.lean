import StnChain.Chain.Shares

/-!
# Rewards in accepted histories

Block evidence and block issuances of an accepted history agree, in order, with
the consumed evidence identifiers, each of which occurs once.  An identifier
names the block and the miner, so a block is rewarded once exactly when the
evidences that name it agree on the miner (`blockReward_once_iff`).

The issuance branch for shares consults the accepted prefix only for the share.
A share is therefore rewarded once exactly when no later block repeats an
issuance transaction of an earlier one (`shareReward_once_iff`).
-/

namespace StnChain

section

variable [Primitives]

/-- The issuance records of a history that have a given reason, in order. -/
def historyIssuances (reason : UInt8) (blocks : List Bytes) : List IssuanceRecord :=
  (historyTransactions blocks).filterMap (Transaction.issuance reason)

/-- The block-compensation evidence a transaction carries. -/
def Transaction.blockEvidence (tx : Transaction) : Option BlockCompensationEvidence :=
  if tx.type = .blockCompensationEvidence then (blockCompensationDecode tx.record).toOption
  else none

/-- The block-compensation evidence of a history, in order. -/
def historyBlockEvidence (blocks : List Bytes) : List BlockCompensationEvidence :=
  (historyTransactions blocks).filterMap Transaction.blockEvidence

omit [Primitives] in
theorem blockEvidence_of_type {tx : Transaction} (h : tx.type ≠ .blockCompensationEvidence) :
    tx.blockEvidence = none := by
  simp [Transaction.blockEvidence, h]

omit [Primitives] in
theorem issuance_of_type {reason : UInt8} {tx : Transaction} (h : tx.type ≠ .issuance) :
    tx.issuance reason = none := by
  simp [Transaction.issuance, h]

/-! ## Block rewards -/

theorem issuanceBindBlock_evidenceId {issuance : IssuanceRecord}
    {e : BlockCompensationEvidence} {compensation : CompensationState}
    (h : issuanceBindBlock issuance e compensation = .ok ()) :
    blockCompensationId e = .ok issuance.evidenceId := by
  simp only [issuanceBindBlock] at h
  split at h
  · simp at h
  split at h
  · simp at h
  split at h
  · simp at h
  obtain ⟨id, hid, h⟩ := bind_eq_ok_iff.mp h
  split at h
  · simp at h
  · next heq => rw [hid, not_not.mp heq]

theorem consumeEvidence_eq_ok {s s' : BlockCompensationReplay}
    {e : BlockCompensationEvidence}
    (h : blockCompensationReplayConsumeEvidence s e = .ok s') :
    ∃ id, blockCompensationId e = .ok id ∧ id ∉ s.ids ∧ s' = ⟨s.ids ++ [id]⟩ ∧ id ≠ 0 ∧
      s.ids.length < blockCompensationReplayCapacity := by
  simp only [blockCompensationReplayConsumeEvidence] at h
  split at h
  · simp at h
  next id hid =>
  obtain ⟨hroom, hne, hfresh, rfl⟩ := blockCompensationReplayConsume_eq_ok h
  exact ⟨id, hid, hfresh, rfl, hne, hroom⟩

/-- A round other than a pair round consumes no evidence identifier. -/
theorem StepOf.blockCompensation {env : CandidateEnv} {tx : Transaction} {s s' : ChainState}
    (h : StepOf env tx s s') :
    s'.blockCompensation = s.blockCompensation ∧ tx.blockEvidence = none ∧
      tx.issuance issuanceReasonBlock = none := by
  cases h with
  | issuance htype happly =>
      obtain ⟨r, _, _, hdecode, hreason, _⟩ := applyIssuance_eq_ok happly
      refine ⟨rfl, blockEvidence_of_type (by simp [htype]), ?_⟩
      simp [Transaction.issuance, htype, hdecode, hreason, issuanceReasonShare,
        issuanceReasonBlock]
  | transfer htype _ | destination htype _ | contract htype _ | share htype _ =>
      exact ⟨rfl, blockEvidence_of_type (by simp [htype]), issuance_of_type (by simp [htype])⟩
  | lifecycle htype _ =>
      refine ⟨rfl, blockEvidence_of_type ?_, issuance_of_type ?_⟩
      all_goals
        rintro heq
        simp [heq, TransactionType.isLifecycle] at htype

/-- The evidence of a history has the consumed identifiers, in order. -/
theorem evidenceIds_advance :
    Advances (fun s => s.blockCompensation.ids.map Except.ok)
      fun ids tx => ids ++ (tx.blockEvidence.map blockCompensationId).toList where
  inherit h := by rw [h.blockCompensation]
  single h := by
    obtain ⟨hsame, hnone, -⟩ := (stepOf_of_applyTransaction h).blockCompensation
    simp [hsame, hnone]
  pair {env tx tx' next s s'} htype hdecode h := by
    obtain ⟨e, tx'', _, replay, _, he, _, hdecode', htype', _, _, _, hconsume, _, rfl⟩ :=
      applyPair_eq_ok h
    obtain rfl := Except.ok.inj (hdecode.symm.trans hdecode')
    obtain ⟨id, hid, -, rfl, -⟩ := consumeEvidence_eq_ok hconsume
    have hsome : tx.blockEvidence = some e := by
      simp [Transaction.blockEvidence, htype, he, Except.toOption]
    have hnone : tx'.blockEvidence = none := blockEvidence_of_type (by simp [htype'])
    simp [hsome, hid, hnone]

/-- The block issuances of a history have the consumed identifiers, in order. -/
theorem issuedIds_advance :
    Advances (fun s => s.blockCompensation.ids) fun ids tx =>
      ids ++ ((tx.issuance issuanceReasonBlock).map IssuanceRecord.evidenceId).toList where
  inherit h := by rw [h.blockCompensation]
  single h := by
    obtain ⟨hsame, -, hnone⟩ := (stepOf_of_applyTransaction h).blockCompensation
    simp [hsame, hnone]
  pair {env tx tx' next s s'} htype hdecode h := by
    obtain ⟨e, tx'', r, replay, _, he, _, hdecode', htype', hr, hreason, hbind, hconsume, _,
      rfl⟩ := applyPair_eq_ok h
    obtain rfl := Except.ok.inj (hdecode.symm.trans hdecode')
    obtain ⟨id, hid, -, rfl, -⟩ := consumeEvidence_eq_ok hconsume
    obtain rfl := Except.ok.inj (hid.symm.trans (issuanceBindBlock_evidenceId hbind))
    have hnone : tx.issuance issuanceReasonBlock = none := issuance_of_type (by simp [htype])
    simp [issuance_eq_some_iff.mpr ⟨htype', hr, hreason⟩, hnone]

/-- No evidence identifier is consumed twice. -/
theorem blockCompensation_nodup_preserved : Preserved fun s => s.blockCompensation.ids.Nodup where
  inherit h hs := h.blockCompensation ▸ hs
  single h hs := by
    obtain ⟨hsame, -⟩ := (stepOf_of_applyTransaction h).blockCompensation
    exact hsame ▸ hs
  pair h hs := by
    obtain ⟨_, _, _, _, _, _, _, _, _, _, _, _, hconsume, _, rfl⟩ := applyPair_eq_ok h
    obtain ⟨id, -, hfresh, rfl, -⟩ := consumeEvidence_eq_ok hconsume
    exact List.nodup_append.mpr
      ⟨hs, by simp, fun x hx y hy => by
        obtain rfl := List.mem_singleton.mp hy
        exact fun heq => hfresh (heq ▸ hx)⟩

/-- Evidence and block issuances of a history, read against the replay set. -/
theorem Reaches.block_rewards {c : ChainContext} {blocks : List Bytes} {s : ChainState}
    (h : Reaches c blocks s) :
    ((historyBlockEvidence blocks).map blockCompensationId).Nodup ∧
      ((historyIssuances issuanceReasonBlock blocks).map IssuanceRecord.evidenceId).Nodup := by
  have hnodup := h.preserves blockCompensation_nodup_preserved fun _ => List.nodup_nil
  have hevidence := h.log evidenceIds_advance fun _ => rfl
  have hissued := h.log issuedIds_advance fun _ => rfl
  constructor
  · rw [historyBlockEvidence, List.map_filterMap, ← hevidence]
    exact hnodup.map fun _ _ => Except.ok.inj
  · rw [historyIssuances, List.map_filterMap, ← hissued]
    exact hnodup

omit [Primitives] in
/-- At most one entry of a list has a property that determines the entry. -/
theorem countP_le_one {α : Type} {l : List α} {p : α → Bool} (hl : l.Nodup)
    (h : ∀ a ∈ l, ∀ b ∈ l, p a = true → p b = true → a = b) : l.countP p ≤ 1 := by
  rw [List.countP_eq_length_filter]
  have hnodup := hl.filter p
  rcases hfilter : l.filter p with _ | ⟨a, _ | ⟨b, rest⟩⟩
  · simp
  · simp
  · rw [hfilter] at hnodup
    obtain ⟨ha, hpa⟩ := List.mem_filter.mp (hfilter ▸ List.mem_cons_self : a ∈ l.filter p)
    obtain ⟨hb, hpb⟩ := List.mem_filter.mp
      (hfilter ▸ List.mem_cons_of_mem _ List.mem_cons_self : b ∈ l.filter p)
    obtain rfl := h a ha b hb hpa hpb
    simp at hnodup

omit [Primitives] in
/-- Counting by a function's value at most once each is having distinct values. -/
theorem countP_map_le_one_iff {α β : Type} [DecidableEq β] {f : α → β} {l : List α} :
    (∀ b, l.countP (fun a => f a = b) ≤ 1) ↔ (l.map f).Nodup := by
  rw [List.nodup_iff_count_le_one]
  refine forall_congr' fun b => ?_
  rw [List.count, List.countP_map]
  refine iff_of_eq (congrArg (· ≤ 1) (List.countP_congr fun a _ => ?_))
  simp

/-- A block issuance is credited for a block that some evidence of the history names. -/
def creditsBlock (blocks : List Bytes) (id : Octets 32) (r : IssuanceRecord) : Bool :=
  (historyBlockEvidence blocks).any fun e =>
    e.blockId = id && (blockCompensationId e).toOption = some r.evidenceId

/-- In an accepted history every block is claimed and rewarded at most once exactly
when the evidences that name one block name one miner. -/
theorem blockReward_once_iff {c : ChainContext} {blocks : List Bytes} {s : ChainState}
    (h : Accepts c blocks s) :
    (∀ id, (historyBlockEvidence blocks).countP (fun e => e.blockId = id) ≤ 1 ∧
        (historyIssuances issuanceReasonBlock blocks).countP (creditsBlock blocks id) ≤ 1) ↔
      ∀ e ∈ historyBlockEvidence blocks, ∀ e' ∈ historyBlockEvidence blocks,
        e.blockId = e'.blockId → e.miner = e'.miner := by
  obtain ⟨-, hreach⟩ := accepts_iff.mp h
  obtain ⟨hevidence, hissued⟩ := hreach.block_rewards
  constructor
  · intro honce e he e' he' hblock
    have hnodup := countP_map_le_one_iff.mp fun id => (honce id).1
    exact congrArg _ (List.inj_on_of_nodup_map hnodup he he' hblock)
  · intro hminer id
    have hsame : ∀ e ∈ historyBlockEvidence blocks, ∀ e' ∈ historyBlockEvidence blocks,
        e.blockId = e'.blockId → e = e' := by
      rintro ⟨id, miner⟩ he ⟨id', miner'⟩ he' hblock
      obtain rfl : id = id' := hblock
      obtain rfl : miner = miner' := hminer _ he _ he' rfl
      rfl
    refine ⟨countP_map_le_one_iff.mpr (List.Nodup.map_on hsame hevidence.of_map) id, ?_⟩
    refine countP_le_one hissued.of_map fun r hr r' hr' hcredits hcredits' => ?_
    obtain ⟨e, he, hcredits⟩ := List.any_eq_true.mp hcredits
    obtain ⟨e', he', hcredits'⟩ := List.any_eq_true.mp hcredits'
    obtain ⟨hblock, hid⟩ := by simpa using hcredits
    obtain ⟨hblock', hid'⟩ := by simpa using hcredits'
    obtain rfl := hsame e he e' he' (hblock.trans hblock'.symm)
    exact List.inj_on_of_nodup_map hissued hr hr'
      (Option.some.inj (hid.symm.trans hid'))

end

section Sample

attribute [local instance] Sample.primitives

open Sample

theorem sample_rewarded_twice : ¬ ∀ (c : ChainContext) (blocks : List Bytes) (s : ChainState),
    Accepts c blocks s → ∀ id,
      (historyBlockEvidence blocks).countP (fun e => e.blockId = id) ≤ 1 ∧
        (historyIssuances issuanceReasonBlock blocks).countP (creditsBlock blocks id) ≤ 1 := by
  intro h
  obtain ⟨s, hs⟩ := accepts_history
  obtain ⟨hclaims, -⟩ := h context history s hs emptyId
  revert hclaims
  decide +kernel

theorem sample_rewarded_once :
    (∀ id, (historyBlockEvidence [genesis, empty, shares, rewards]).countP
        (fun e => e.blockId = id) ≤ 1 ∧
      (historyIssuances issuanceReasonBlock [genesis, empty, shares, rewards]).countP
        (creditsBlock [genesis, empty, shares, rewards] id) ≤ 1) ↔
      ∀ e ∈ historyBlockEvidence [genesis, empty, shares, rewards],
        ∀ e' ∈ historyBlockEvidence [genesis, empty, shares, rewards],
          e.blockId = e'.blockId → e.miner = e'.miner := by
  obtain ⟨⟨t, ht⟩, -⟩ := accepts_front
  exact blockReward_once_iff ht

end Sample

section

variable [Primitives]

/-! ## Share rewards -/

theorem issuanceBindShare_spec {issuance : IssuanceRecord} {share : ShareEvidence}
    {compensation : CompensationState}
    (h : issuanceBindShare issuance share compensation = .ok ()) :
    issuance.units = issuanceShareUnits ∧ shareId share = .ok issuance.evidenceId ∧
      issuance.destination.miningIdentity.identifier = share.miner.identifier := by
  simp only [issuanceBindShare] at h
  split at h
  · simp at h
  next hamount =>
  split at h
  · simp at h
  split at h
  · simp at h
  next hminer =>
  obtain ⟨id, hid, h⟩ := bind_eq_ok_iff.mp h
  split at h
  · simp at h
  · next heq =>
      rw [not_not.mp heq]
      exact ⟨not_not.mp (not_or.mp hamount).2, hid, not_not.mp hminer⟩

/-- The search finds bound evidence among the shares of the history. -/
theorem historyBindsShare_eq_true {issuance : IssuanceRecord}
    {compensation : CompensationState} {blocks : List Bytes}
    (h : historyBindsShare issuance compensation blocks = .ok true) :
    ∃ share ∈ historyShares blocks,
      issuanceBindShare issuance share compensation = .ok () := by
  induction blocks with
  | nil => simp [historyBindsShare] at h
  | cons bytes rest ih =>
      simp only [historyBindsShare] at h
      split at h
      · simp at h
      next b hdecode =>
      have hhead : historyShares [bytes] =
          (decodedTransactions b.transactions).filterMap Transaction.share := by
        rw [historyShares, historyTransactions_singleton hdecode]
      have hsplit : historyShares (bytes :: rest) =
          historyShares [bytes] ++ historyShares rest := by
        rw [historyShares, ← List.singleton_append, historyTransactions_append,
          List.filterMap_append]
        rfl
      rw [hsplit]
      split at h
      · next hany =>
          obtain ⟨t, ht, hbinds⟩ := List.any_eq_true.mp hany
          simp only [bindsShare] at hbinds
          split at hbinds
          · simp at hbinds
          next tx htx =>
          obtain ⟨htype, hbinds⟩ := Bool.and_eq_true_iff.mp hbinds
          split at hbinds
          · simp at hbinds
          next share hshare =>
          refine ⟨share, List.mem_append_left _ ?_, of_decide_eq_true hbinds⟩
          rw [hhead]
          exact List.mem_filterMap.mpr ⟨tx, mem_decodedTransactions.mpr ⟨t, ht, htx⟩,
            share_eq_some_iff.mpr ⟨of_decide_eq_true htype, hshare⟩⟩
      · obtain ⟨share, hshare, hbind⟩ := ih h
        exact ⟨share, List.mem_append_right _ hshare, hbind⟩

/-- The mapping is well formed and sends an identity to a wallet. -/
def MapsTo (identity wallet : Address) (s : ChainState) : Prop :=
  s.compensation.WellFormed ∧ compensationStateLookup s.compensation identity = .ok wallet

omit [Primitives] in
theorem wellFormed_of_components {prior candidate : ChainState}
    (h : ComponentsOf prior candidate) (hs : prior.compensation.WellFormed) :
    candidate.compensation.WellFormed :=
  ⟨h.compensationWithin hs.within, h.compensation ▸ hs.sorted⟩

theorem wellFormed_preserved : Preserved fun s => s.compensation.WellFormed where
  inherit := wellFormed_of_components
  single h hs := by
    cases stepOf_of_applyTransaction h with
    | destination _ happly =>
        simp only [applyDestination] at happly
        split at happly
        · simp at happly
        · exact compensationStateApply_wellFormed hs happly
    | issuance _ _ | transfer _ _ | contract _ _ | share _ _ | lifecycle _ _ => exact hs
  pair h hs := by
    obtain ⟨_, _, _, _, _, _, _, _, _, _, _, _, _, _, rfl⟩ := applyPair_eq_ok h
    exact hs

/-- An accepted mapping is never changed. -/
theorem mapsTo_preserved (identity wallet : Address) : Preserved (MapsTo identity wallet) where
  inherit {prior candidate} h hs := by
    refine ⟨wellFormed_of_components h hs.1, ?_⟩
    have hlookup := hs.2
    have hwithin := h.compensationWithin hs.1.within
    simp only [compensationStateLookup] at hlookup ⊢
    rw [if_neg (not_lt.mpr hs.1.within)] at hlookup
    rw [if_neg (not_lt.mpr hwithin), h.compensation]
    exact hlookup
  single h hs := by
    refine ⟨wellFormed_preserved.single h hs.1, ?_⟩
    cases stepOf_of_applyTransaction h with
    | destination _ happly =>
        simp only [applyDestination] at happly
        split at happly
        · simp at happly
        · exact compensationStateLookup_apply hs.1 happly hs.2
    | issuance _ _ | transfer _ _ | contract _ _ | share _ _ | lifecycle _ _ => exact hs.2
  pair h hs := by
    obtain ⟨_, _, _, _, _, _, _, _, _, _, _, _, _, _, rfl⟩ := applyPair_eq_ok h
    exact hs

omit [Primitives] in
theorem emptyState_wellFormed (c : ChainContext) (activation : UInt64) :
    (emptyState c activation).compensation.WellFormed :=
  ⟨le_refl _, List.Pairwise.nil⟩

/-- What an accepted share issuance rests on: a share of the history, and the wallet
the final mapping gives for its miner. -/
structure ShareBacked (blocks : List Bytes) (s : ChainState) (r : IssuanceRecord) : Prop where
  identity : r.destination.miningIdentity.type = .identity
  wallet : r.destination.wallet.type = .wallet
  reason : r.reason = issuanceReasonShare
  units : r.units = issuanceShareUnits
  share : ∃ share ∈ historyShares blocks, shareId share = .ok r.evidenceId ∧
    r.destination.miningIdentity.identifier = share.miner.identifier
  mapped : ∃ mapped, compensationStateLookup s.compensation r.destination.miningIdentity =
    .ok mapped ∧ mapped.identifier = r.destination.wallet.identifier

theorem historyShares_append (past rest : List Bytes) :
    historyShares (past ++ rest) = historyShares past ++ historyShares rest := by
  simp [historyShares]

theorem Reaches.share_backed {c : ChainContext} {blocks : List Bytes} {s : ChainState}
    (h : Reaches c blocks s) {r : IssuanceRecord}
    (hr : r ∈ historyIssuances issuanceReasonShare blocks) : ShareBacked blocks s r := by
  obtain ⟨tx, htx, hsome⟩ := List.mem_filterMap.mp hr
  obtain ⟨htype, hdecode, hreason⟩ := issuance_eq_some_iff.mp hsome
  have hnone : tx.issuance issuanceReasonBlock = none := by
    simp [Transaction.issuance, htype, hdecode, hreason, issuanceReasonShare,
      issuanceReasonBlock]
  obtain ⟨past, bytes, rest, pre, before, after, rfl, hat⟩ :=
    h.round_of_mem htx (by simp [htype]) hnone
  have hwell := hat.before wellFormed_preserved (emptyState_wellFormed c)
  obtain ⟨prior, b, flags, candidate, post, s', _, _, _, hround, hpost, hreach⟩ := hat
  cases stepOf_of_applyTransaction hround with
  | issuance _ happly =>
      obtain ⟨r', mapped, blocks', hdecode', _, hlookup, hwallet, hhistory, hbinds, _⟩ :=
        applyIssuance_eq_ok happly
      obtain rfl := Except.ok.inj (hdecode.symm.trans hdecode')
      obtain rfl : past = blocks' := Option.some.inj hhistory
      obtain ⟨share, hshare, hbind⟩ := historyBindsShare_eq_true hbinds
      obtain ⟨hunits, hid, hminer⟩ := issuanceBindShare_spec hbind
      obtain ⟨-, -, -, hrecord⟩ := issuanceDecode_eq_ok hdecode
      -- The mapping at the issuance is still the mapping at the end of the history.
      have hmaps := mapsTo_preserved r.destination.miningIdentity mapped
      have hwhole : Reaches c ((past ++ [bytes]) ++ rest) s := by simpa using h
      have hend := Reaches.preserves_from hmaps hreach hwhole
        (hpost.preserves hmaps ⟨hwell, hlookup⟩)
      refine ⟨by rw [hrecord], by rw [hrecord], hreason, hunits, ?_, mapped, hend.2, hwallet⟩
      refine ⟨share, ?_, hid, hminer⟩
      rw [historyShares_append]
      exact List.mem_append_left _ hshare
  | transfer htype' _ | destination htype' _ | contract htype' _ | share htype' _ =>
      simp [htype] at htype'
  | lifecycle htype' _ => simp [htype, TransactionType.isLifecycle] at htype'

/-- Distinct share evidences of a history have distinct identifiers: the collision
freedom of the identifier's hash, on this history. -/
def ShareIdsDistinct (blocks : List Bytes) : Prop :=
  ∀ share ∈ historyShares blocks, ∀ share' ∈ historyShares blocks,
    ∀ id, shareId share = .ok id → shareId share' = .ok id → share = share'

/-- Two backed issuances that name one evidence are one record. -/
theorem ShareBacked.eq {blocks : List Bytes} {s : ChainState} {r r' : IssuanceRecord}
    (hdistinct : ShareIdsDistinct blocks) (h : ShareBacked blocks s r)
    (h' : ShareBacked blocks s r') (hid : r.evidenceId = r'.evidenceId) : r = r' := by
  obtain ⟨share, hshare, hshareId, hminer⟩ := h.share
  obtain ⟨share', hshare', hshareId', hminer'⟩ := h'.share
  obtain rfl := hdistinct share hshare share' hshare' r'.evidenceId (hid ▸ hshareId) hshareId'
  have hidentity : r.destination.miningIdentity = r'.destination.miningIdentity := by
    have htype := h.identity.trans h'.identity.symm
    have hidentifier := hminer.trans hminer'.symm
    cases hm : r.destination.miningIdentity
    cases hm' : r'.destination.miningIdentity
    simp_all
  obtain ⟨mapped, hlookup, hmapped⟩ := h.mapped
  obtain ⟨mapped', hlookup', hmapped'⟩ := h'.mapped
  rw [hidentity] at hlookup
  obtain rfl := Except.ok.inj (hlookup.symm.trans hlookup')
  have hwallet : r.destination.wallet = r'.destination.wallet := by
    have htype := h.wallet.trans h'.wallet.symm
    have hidentifier := hmapped.symm.trans hmapped'
    cases hm : r.destination.wallet
    cases hm' : r'.destination.wallet
    simp_all
  rcases r with ⟨reason, units, evidenceId, identity, wallet⟩
  rcases r' with ⟨reason', units', evidenceId', identity', wallet'⟩
  have hreason := h.reason.trans h'.reason.symm
  have hunits := h.units.trans h'.units.symm
  simp_all

/-- The share issuance record the octets of a transaction carry. -/
def shareIssuanceOf (t : Bytes) : Option IssuanceRecord :=
  (transactionDecode t).toOption.bind (Transaction.issuance issuanceReasonShare)

theorem shareIssuanceOf_eq_some {t : Bytes} {r : IssuanceRecord}
    (h : shareIssuanceOf t = some r) :
    ∃ tx, transactionDecode t = .ok tx ∧ tx.issuance issuanceReasonShare = some r := by
  simp only [shareIssuanceOf] at h
  cases hdecode : transactionDecode t with
  | error status => simp [hdecode, Except.toOption] at h
  | ok tx => exact ⟨tx, rfl, by simpa [hdecode, Except.toOption] using h⟩

/-- An issuance record determines the octets of the transaction that carries it. -/
theorem shareIssuanceOf_injective {t t' : Bytes} {r : IssuanceRecord}
    (h : shareIssuanceOf t = some r) (h' : shareIssuanceOf t' = some r) : t = t' := by
  obtain ⟨⟨version, type, record⟩, hdecode, hsome⟩ := shareIssuanceOf_eq_some h
  obtain ⟨⟨version', type', record'⟩, hdecode', hsome'⟩ := shareIssuanceOf_eq_some h'
  obtain ⟨htype, hr, -⟩ := issuance_eq_some_iff.mp hsome
  obtain ⟨htype', hr', -⟩ := issuance_eq_some_iff.mp hsome'
  obtain ⟨hversion, -, -⟩ := transactionDecode_eq_ok hdecode
  obtain ⟨hversion', -, -⟩ := transactionDecode_eq_ok hdecode'
  dsimp only at htype htype' hr hr' hversion hversion'
  obtain rfl := issuanceDecode_injective hr hr'
  subst htype htype' hversion hversion'
  exact transactionDecode_injective hdecode hdecode'

theorem historyIssuances_eq_flatMap (blocks : List Bytes) :
    historyIssuances issuanceReasonShare blocks =
      blocks.flatMap fun bytes => (blockTransactions bytes).filterMap shareIssuanceOf := by
  simp only [historyIssuances, historyTransactions, decodedTransactions, List.filterMap_flatMap,
    List.filterMap_filterMap]
  rfl

/-- No block of an accepted history carries a transaction twice. -/
theorem Reaches.nodup_blockTransactions {c : ChainContext} {blocks : List Bytes}
    {s : ChainState} (h : Reaches c blocks s) {bytes : Bytes} (hbytes : bytes ∈ blocks) :
    (blockTransactions bytes).Nodup := by
  obtain ⟨past, rest, rfl⟩ := List.append_of_mem hbytes
  obtain ⟨prior, s', -, hstep, -⟩ := h.step_at
  obtain ⟨b, flags, candidate, hprepared, -⟩ := reconstructStep_eq_ok_iff.mp hstep
  rw [blockTransactions_of_decode hprepared.decode]
  exact Block.nodup_transactions hprepared.decode hprepared.integrity

/-- In an accepted history without colliding share identifiers, every share is
rewarded at most once exactly when no later block repeats a share issuance
transaction of an earlier one. -/
theorem shareReward_once_iff {c : ChainContext} {blocks : List Bytes} {s : ChainState}
    (h : Accepts c blocks s) (hdistinct : ShareIdsDistinct blocks) :
    (∀ id, (historyIssuances issuanceReasonShare blocks).countP
        (fun r => r.evidenceId = id) ≤ 1) ↔
      blocks.Pairwise fun earlier later =>
        ∀ t ∈ blockTransactions earlier, t ∈ blockTransactions later →
          shareIssuanceOf t = none := by
  obtain ⟨-, hreach⟩ := accepts_iff.mp h
  have hinj : ∀ r ∈ historyIssuances issuanceReasonShare blocks,
      ∀ r' ∈ historyIssuances issuanceReasonShare blocks,
      r.evidenceId = r'.evidenceId → r = r' := fun r hr r' hr' hid =>
    (hreach.share_backed hr).eq hdistinct (hreach.share_backed hr') hid
  have hmap : ((historyIssuances issuanceReasonShare blocks).map
      IssuanceRecord.evidenceId).Nodup ↔
      (historyIssuances issuanceReasonShare blocks).Nodup :=
    ⟨List.Nodup.of_map _, List.Nodup.map_on hinj⟩
  rw [countP_map_le_one_iff, hmap, historyIssuances_eq_flatMap, List.nodup_flatMap]
  constructor
  · rintro ⟨-, hdisjoint⟩
    refine hdisjoint.imp fun {earlier later} hblocks t ht ht' => ?_
    by_contra hne
    obtain ⟨r, hr⟩ := Option.ne_none_iff_exists'.mp hne
    exact hblocks (List.mem_filterMap.mpr ⟨t, ht, hr⟩) (List.mem_filterMap.mpr ⟨t, ht', hr⟩)
  · intro hrepeat
    refine ⟨fun bytes hbytes => ?_, hrepeat.imp fun {earlier later} hblocks r hr hr' => ?_⟩
    · refine (hreach.nodup_blockTransactions hbytes).filterMap fun t t' r hr hr' => ?_
      exact shareIssuanceOf_injective hr hr'
    · obtain ⟨t, ht, hsome⟩ := List.mem_filterMap.mp hr
      obtain ⟨t', ht', hsome'⟩ := List.mem_filterMap.mp hr'
      obtain rfl := shareIssuanceOf_injective hsome hsome'
      simp [hblocks t ht ht'] at hsome

end

section Sample

attribute [local instance] Sample.primitives

open Sample

theorem sample_share_credited_twice :
    ¬ ∀ (c : ChainContext) (blocks : List Bytes) (s : ChainState), Accepts c blocks s → ∀ id,
      (historyIssuances issuanceReasonShare blocks).countP (fun r => r.evidenceId = id) ≤ 1 := by
  intro h
  obtain ⟨s, hs⟩ := accepts_history
  have honce := h context history s hs aliceShareId
  revert honce
  decide +kernel

theorem sample_share_credited_once :
    (∀ id, (historyIssuances issuanceReasonShare [genesis, empty, shares, rewards]).countP
        (fun r => r.evidenceId = id) ≤ 1) ↔
      [genesis, empty, shares, rewards].Pairwise fun earlier later =>
        ∀ t ∈ blockTransactions earlier, t ∈ blockTransactions later →
          shareIssuanceOf t = none := by
  obtain ⟨⟨t, ht⟩, -⟩ := accepts_front
  have hids : ∀ share ∈ historyShares [genesis, empty, shares, rewards],
      ∀ share' ∈ historyShares [genesis, empty, shares, rewards],
        shareId share = shareId share' → share = share' := by
    decide +kernel
  exact shareReward_once_iff ht fun share hshare share' hshare' id hid hid' =>
    hids share hshare share' hshare' (hid.trans hid'.symm)

end Sample

end StnChain
