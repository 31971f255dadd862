import StnChain.Chain.History

/-!
# Share evidence in accepted histories

The replay set of an accepted history holds the key of every share it carries,
once (`Reaches.shares_consumed`).  A key names the miner, so one solved header
may be claimed by several miners but by no miner twice.  The proof of a share
meets the share target of the target its own header declares; it meets the one
the chain requires at that height when the declared target is no larger.
-/

namespace StnChain

section

variable [Primitives]

/-- The share evidence a transaction carries. -/
def Transaction.share (tx : Transaction) : Option ShareEvidence :=
  if tx.type = .shareEvidence then (shareDecode tx.record).toOption else none

/-- The share evidence of a history, in order. -/
def historyShares (blocks : List Bytes) : List ShareEvidence :=
  (historyTransactions blocks).filterMap Transaction.share

omit [Primitives] in
theorem share_eq_some_iff {tx : Transaction} {share : ShareEvidence} :
    tx.share = some share ↔ tx.type = .shareEvidence ∧ shareDecode tx.record = .ok share := by
  simp only [Transaction.share, Option.ite_none_right_eq_some]
  cases shareDecode tx.record <;> simp [Except.toOption]

omit [Primitives] in
theorem share_of_type {tx : Transaction} (h : tx.type ≠ .shareEvidence) : tx.share = none := by
  simp [Transaction.share, h]

/-! ## The replay set -/

/-- The replay set gains the key of each share, and nothing else. -/
theorem shares_advance :
    Advances (fun s => s.shares.consumed)
      fun keys tx => keys ++ (tx.share.map ShareEvidence.key).toList where
  inherit h := h.shares
  single {env tx s s'} h := by
    cases stepOf_of_applyTransaction h with
    | share htype happly =>
        obtain ⟨share, _, hdecode, _, _, _, hconsume⟩ := applyShare_eq_ok happly
        obtain ⟨-, -, rfl⟩ := shareReplayConsume_fresh hconsume
        simp [share_eq_some_iff.mpr ⟨htype, hdecode⟩]
    | issuance htype _ | transfer htype _ | destination htype _ | contract htype _ =>
        have hnone : tx.share = none := share_of_type (by simp [htype])
        simp [hnone]
    | lifecycle htype _ =>
        have hne : tx.type ≠ .shareEvidence := by
          rintro heq
          simp [heq, TransactionType.isLifecycle] at htype
        simp [share_of_type hne]
  pair {env tx tx' next s s'} htype hdecode h := by
    obtain ⟨_, tx'', _, _, _, _, _, hdecode', htype', _, _, _, _, _, rfl⟩ := applyPair_eq_ok h
    obtain rfl := Except.ok.inj (hdecode.symm.trans hdecode')
    have hnone : tx.share = none := share_of_type (by simp [htype])
    have hnone' : tx'.share = none := share_of_type (by simp [htype'])
    simp [hnone, hnone']

/-- No key is consumed twice. -/
theorem shares_nodup_preserved : Preserved fun s => s.shares.consumed.Nodup where
  inherit h hs := h.shares ▸ hs
  single h hs := by
    cases stepOf_of_applyTransaction h with
    | share _ happly =>
        obtain ⟨_, _, _, _, _, _, hconsume⟩ := applyShare_eq_ok happly
        obtain ⟨-, hfresh, rfl⟩ := shareReplayConsume_fresh hconsume
        exact List.nodup_append.mpr
          ⟨hs, by simp, fun key hkey key' hkey' => by
            obtain rfl := List.mem_singleton.mp hkey'
            exact fun heq => hfresh (heq ▸ hkey)⟩
    | issuance _ _ | transfer _ _ | destination _ _ | contract _ _ | lifecycle _ _ => exact hs
  pair h hs := by
    obtain ⟨_, _, _, _, _, _, _, _, _, _, _, _, _, _, rfl⟩ := applyPair_eq_ok h
    exact hs

/-- The replay set is the keys of the shares of the history, each once. -/
theorem Reaches.shares_consumed {c : ChainContext} {blocks : List Bytes} {s : ChainState}
    (h : Reaches c blocks s) :
    s.shares.consumed = (historyShares blocks).map ShareEvidence.key ∧
      ((historyShares blocks).map ShareEvidence.key).Nodup := by
  have hlog := h.log shares_advance fun _ => rfl
  have hkeys : s.shares.consumed = (historyShares blocks).map ShareEvidence.key := by
    rw [hlog, historyShares, List.map_filterMap]
  have hnodup := h.preserves shares_nodup_preserved fun _ => List.nodup_nil
  exact ⟨hkeys, hkeys ▸ hnodup⟩

/-! ## The round of a share -/

/-- The checks a share of a history passed, in the block after `past`. -/
structure ShareChecked (c : ChainContext) (past : List Bytes) (share : ShareEvidence)
    (work : BlockHeader) : Prop where
  header : blockHeaderDecode (octetBytes share.templateHeader) = .ok work
  below : work.height.toNat < past.length
  verified : ∃ proof, shareVerifyEvidence share c.hashProvider = .ok proof

/-- Every share transaction of an accepted history decodes, and its share was checked in
the block that carries it. -/
theorem Reaches.share_transaction_checked {c : ChainContext} {blocks : List Bytes}
    {s : ChainState} (h : Reaches c blocks s) {tx : Transaction}
    (htx : tx ∈ historyTransactions blocks) (htype : tx.type = .shareEvidence) :
    ∃ share past bytes rest work, shareDecode tx.record = .ok share ∧
      blocks = past ++ bytes :: rest ∧ ShareChecked c past share work := by
  have hnone : tx.issuance issuanceReasonBlock = none := by simp [Transaction.issuance, htype]
  obtain ⟨past, bytes, rest, pre, before, after, rfl, hat⟩ :=
    h.round_of_mem htx (by simp [htype]) hnone
  obtain ⟨prior, b, flags, candidate, post, s', hprior, hprepared, _, hround, _⟩ := hat
  have hheight := hprepared.height_eq hprior.tipOf
  cases stepOf_of_applyTransaction hround with
  | share _ happly =>
      obtain ⟨share, work, hdecode, hwork, hadmissible, _, _⟩ := applyShare_eq_ok happly
      obtain ⟨hbelow, -, hverified⟩ := shareAdmissible_spec hadmissible
      exact ⟨share, past, bytes, rest, work, hdecode, rfl, hwork,
        hheight ▸ UInt64.lt_iff_toNat_lt.mp hbelow, hverified⟩
  | issuance htype' _ | transfer htype' _ | destination htype' _ | contract htype' _ =>
      simp [htype] at htype'
  | lifecycle htype' _ => simp [htype, TransactionType.isLifecycle] at htype'

/-- Every share of an accepted history was checked in the block that carries it. -/
theorem Reaches.share_checked {c : ChainContext} {blocks : List Bytes} {s : ChainState}
    (h : Reaches c blocks s) {share : ShareEvidence} (hshare : share ∈ historyShares blocks) :
    ∃ past bytes rest work, blocks = past ++ bytes :: rest ∧ ShareChecked c past share work := by
  obtain ⟨tx, htx, hsome⟩ := List.mem_filterMap.mp hshare
  obtain ⟨htype, hdecode⟩ := share_eq_some_iff.mp hsome
  obtain ⟨share', past, bytes, rest, work, hdecode', hblocks, hchecked⟩ :=
    h.share_transaction_checked htx htype
  obtain rfl := Except.ok.inj (hdecode.symm.trans hdecode')
  exact ⟨past, bytes, rest, work, hblocks, hchecked⟩

/-! ## One solved header, one miner, one share -/

/-- The solved header of a share: the header without its nonce, and the nonce. -/
def ShareEvidence.solvedHeader (share : ShareEvidence) : Octets 168 × UInt64 :=
  (share.templateHeader, share.nonce)

/-- No two shares of an accepted history carry the same solved header for the same
miner. -/
theorem solvedHeader_miner_nodup {c : ChainContext} {blocks : List Bytes} {s : ChainState}
    (h : Accepts c blocks s) :
    ((historyShares blocks).map fun share => (share.solvedHeader, share.miner)).Nodup := by
  obtain ⟨-, hreach⟩ := accepts_iff.mp h
  obtain ⟨-, hnodup⟩ := hreach.shares_consumed
  refine List.Nodup.map_on ?_ hnodup.of_map
  intro share hshare share' hshare' heq
  obtain ⟨hsolved, hminer⟩ := Prod.mk.inj heq
  obtain ⟨hheader, hnonce⟩ := Prod.mk.inj hsolved
  refine List.inj_on_of_nodup_map hnodup hshare hshare' ?_
  -- The work identifier of a key is the digest of the header, so equal headers give equal keys.
  have hwork : ∀ share ∈ historyShares blocks,
      workIdFromEvidence share c.hashProvider = .ok share.workId := by
    intro share hshare
    obtain ⟨_, _, _, _, _, hchecked⟩ := hreach.share_checked hshare
    obtain ⟨proof, hproof⟩ := hchecked.verified
    exact (shareVerifyEvidence_eq_ok hproof).1
  have hid := hwork share hshare
  have hid' := hwork share' hshare'
  have hsame : workIdFromEvidence share c.hashProvider =
      workIdFromEvidence share' c.hashProvider := by
    simp only [workIdFromEvidence, hheader]
  have hworkId : share.workId = share'.workId := by
    rw [hid, hid'] at hsame
    exact Except.ok.inj hsame
  simp only [ShareEvidence.key, hworkId, hnonce, hminer]

end

section Sample

attribute [local instance] Sample.primitives

open Sample

theorem sample_solved_header_shared : ¬ ∀ (c : ChainContext) (blocks : List Bytes)
    (s : ChainState), Accepts c blocks s →
      ((historyShares blocks).map ShareEvidence.solvedHeader).Nodup := by
  intro h
  obtain ⟨s, hs⟩ := accepts_history
  have hnodup := h context history s hs
  revert hnodup
  decide +kernel

theorem sample_solved_header_miner : ((historyShares history).map fun share =>
    (share.solvedHeader, share.miner)).Nodup := by
  obtain ⟨s, hs⟩ := accepts_history
  exact solvedHeader_miner_nodup hs

end Sample

section

variable [Primitives]

/-! ## Difficulty -/

/-- The target the chain requires at a height of a history. -/
def RequiredTargetAt (c : ChainContext) (blocks : List Bytes) (height : ℕ)
    (target : Octets 32) : Prop :=
  ∃ s, Reaches c (blocks.take height) s ∧ chainRequiredTarget c s = .ok target

/-- The proof of a share meets the share target of the target the chain requires at
the height of its work. -/
def MeetsRequiredTarget (c : ChainContext) (blocks : List Bytes) (share : ShareEvidence) :
    Prop :=
  ∃ work proof target shareTarget,
    blockHeaderDecode (octetBytes share.templateHeader) = .ok work ∧
    shareProof share work c.hashProvider = .ok proof ∧
    RequiredTargetAt c blocks work.height.toNat target ∧
    economyShareTarget target = .ok shareTarget ∧ proof ≤ shareTarget

/-- The work header of a share declares no larger a target than the block that the
history has at the height of the work. -/
def DeclaresCoveredTarget (blocks : List Bytes) (share : ShareEvidence) : Prop :=
  ∃ work bytes b, blockHeaderDecode (octetBytes share.templateHeader) = .ok work ∧
    blocks[work.height.toNat]? = some bytes ∧ blockDecode bytes = .ok b ∧
    work.reservedTarget ≤ b.header.reservedTarget

theorem RequiredTargetAt.unique {c : ChainContext} {blocks : List Bytes} {height : ℕ}
    {target target' : Octets 32} (h : RequiredTargetAt c blocks height target)
    (h' : RequiredTargetAt c blocks height target') : target = target' := by
  obtain ⟨s, hs, htarget⟩ := h
  obtain ⟨s', hs', htarget'⟩ := h'
  obtain rfl := hs.unique hs'
  exact Except.ok.inj (htarget.symm.trans htarget')

/-- The blocks of an accepted proof-of-work history have the targets the chain
requires at their heights. -/
theorem Reaches.required_target {c : ChainContext} (hpow : c.powPolicy.isSome)
    {blocks : List Bytes} {s : ChainState} (h : Reaches c blocks s) {height : ℕ}
    {bytes : Bytes} {b : Block} (hbytes : blocks[height]? = some bytes)
    (hdecode : blockDecode bytes = .ok b) :
    RequiredTargetAt c blocks height b.header.reservedTarget ∧
      targetValidate b.header.reservedTarget = .ok () := by
  obtain ⟨hlt, hget⟩ := List.getElem?_eq_some_iff.mp hbytes
  have hsplit : blocks = blocks.take height ++ bytes :: blocks.drop (height + 1) := by
    rw [← hget, List.getElem_cons_drop, List.take_append_drop]
  rw [hsplit] at h
  obtain ⟨prior, s', hprior, hstep, -⟩ := h.step_at
  obtain ⟨b', flags, candidate, hprepared, -⟩ := reconstructStep_eq_ok_iff.mp hstep
  obtain rfl := Except.ok.inj (hdecode.symm.trans hprepared.decode)
  obtain ⟨policy, hpolicy⟩ := Option.isSome_iff_exists.mp hpow
  obtain ⟨id, next, -, -, hworked, -, -⟩ := hprepared.next_state
  simp only [CandidateWorked, hpolicy] at hworked
  obtain ⟨hrequired, hcompare, -⟩ := hworked
  refine ⟨⟨prior, hprior, hrequired⟩, ?_⟩
  simp only [powCompare] at hcompare
  split at hcompare
  · simp at hcompare
  · next hvalid => exact hvalid

/-- Along an accepted proof-of-work history whose shares declare covered targets,
every share meets the target the chain requires. -/
theorem shares_meet_required_target {c : ChainContext} (hpow : c.powPolicy.isSome)
    {blocks : List Bytes} {s : ChainState} (h : Accepts c blocks s)
    (hcovered : ∀ share ∈ historyShares blocks, DeclaresCoveredTarget blocks share) :
    ∀ share ∈ historyShares blocks, MeetsRequiredTarget c blocks share := by
  intro share hshare
  obtain ⟨-, hreach⟩ := accepts_iff.mp h
  obtain ⟨past, bytes, rest, work, hblocks, hchecked⟩ := hreach.share_checked hshare
  obtain ⟨work', bytes', b, hwork', hbytes', hdecode', hle⟩ := hcovered share hshare
  obtain rfl := Except.ok.inj (hchecked.header.symm.trans hwork')
  obtain ⟨hrequired, hvalid⟩ := hreach.required_target hpow hbytes' hdecode'
  obtain ⟨proof, hproof⟩ := hchecked.verified
  obtain ⟨-, header, declared, hheader, hdeclared, hshareProof, hcompare⟩ :=
    shareVerifyEvidence_eq_ok hproof
  obtain rfl := Except.ok.inj (hchecked.header.symm.trans hheader)
  obtain ⟨shareTarget, hshareTarget⟩ := economyShareTarget_of_valid hvalid
  refine ⟨work, proof, _, shareTarget, hchecked.header, hshareProof, hrequired, hshareTarget, ?_⟩
  have hdeclaredNat := toNat_economyShareTarget hdeclared
  have hshareNat := toNat_economyShareTarget hshareTarget
  have hproofNat := powCompare_eq_ok hcompare
  have htargets := BitVec.le_def.mp hle
  rw [BitVec.le_def]
  omega

end

section Sample

attribute [local instance] Sample.primitives

open Sample

/-- The work of a share is at height one, and its hash is above the sample's share target. -/
def missesTarget (share : ShareEvidence) : Bool :=
  match blockHeaderDecode (octetBytes share.templateHeader), economyShareTarget target with
  | .ok work, .ok shareTarget =>
      work.height = 1 && match shareProof share work context.hashProvider with
        | .ok proof => shareTarget < proof
        | .error _ => false
  | _, _ => false

theorem sample_share_misses_target : ¬ ∀ (c : ChainContext) (blocks : List Bytes)
    (s : ChainState), c.powPolicy.isSome → Accepts c blocks s →
      ∀ share ∈ historyShares blocks, MeetsRequiredTarget c blocks share := by
  intro h
  obtain ⟨s, hs⟩ := accepts_history
  have hany : (historyShares history).any missesTarget = true := by decide +kernel
  obtain ⟨share, hshare, hmisses⟩ := List.any_eq_true.mp hany
  obtain ⟨work, proof, required, shareTarget, hwork, hproof, hrequired, hshareTarget, hle⟩ :=
    h context history s rfl hs share hshare
  simp only [missesTarget, hwork] at hmisses
  split at hmisses
  next work' target' hwork' htarget' =>
    obtain rfl := Except.ok.inj hwork'
    obtain ⟨hheight, hmisses⟩ := Bool.and_eq_true_iff.mp hmisses
    rw [hproof] at hmisses
    have hheight : work.height = 1 := of_decide_eq_true hheight
    rw [hheight] at hrequired
    -- The chain requires the target of the accepted block at the height of the work.
    have hdecode : (blockDecode empty).map (fun b => b.header.reservedTarget) = .ok target := by
      decide +kernel
    cases hempty : blockDecode empty with
    | error status => simp [hempty, Except.map] at hdecode
    | ok b =>
        obtain ⟨hsame, -⟩ := (accepts_iff.mp hs).2.required_target rfl
          (rfl : history[1]? = some empty) hempty
        have htarget : b.header.reservedTarget = target := by
          simpa [hempty, Except.map] using hdecode
        obtain rfl := (hrequired.unique hsame).trans htarget
        obtain rfl := Except.ok.inj (htarget'.symm.trans hshareTarget)
        exact absurd hle (BitVec.not_le.mpr (of_decide_eq_true hmisses))
  next => simp at hmisses

/-- The share's header decodes at height one and declares the sample's target. -/
def declaresTarget (share : ShareEvidence) : Bool :=
  match blockHeaderDecode (octetBytes share.templateHeader) with
  | .ok work => work.height = 1 && work.reservedTarget = target
  | .error _ => false

theorem sample_honest_share_meets_target :
    (historyShares [genesis, empty, honest]).length = 1 ∧
      ∀ share ∈ historyShares [genesis, empty, honest],
        MeetsRequiredTarget context [genesis, empty, honest] share := by
  obtain ⟨s, hs⟩ := accepts_honest
  refine ⟨by decide +kernel, shares_meet_required_target rfl hs fun share hshare => ?_⟩
  have hall : (historyShares [genesis, empty, honest]).all declaresTarget = true := by
    decide +kernel
  have hdecode : (blockDecode empty).map (fun b => b.header.reservedTarget) = .ok target := by
    decide +kernel
  have hdeclares := List.all_eq_true.mp hall share hshare
  simp only [declaresTarget] at hdeclares
  split at hdeclares
  next work hwork =>
    obtain ⟨hheight, htarget⟩ := Bool.and_eq_true_iff.mp hdeclares
    have hheight : work.height = 1 := of_decide_eq_true hheight
    have htarget : work.reservedTarget = target := of_decide_eq_true htarget
    cases hempty : blockDecode empty with
    | error status => simp [hempty, Except.map] at hdecode
    | ok b =>
        have hsame : b.header.reservedTarget = target := by
          simpa [hempty, Except.map] using hdecode
        refine ⟨work, empty, b, hwork, by rw [hheight]; rfl, hempty, ?_⟩
        rw [htarget, hsame]
        exact BitVec.le_refl _
  next => simp at hdeclares

end Sample

end StnChain
