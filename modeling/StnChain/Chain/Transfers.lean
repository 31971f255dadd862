import StnChain.Chain.Conservation

/-!
# Transfers in accepted histories

The replay set of an accepted history holds the key of every transfer envelope it
carries, once.  Between two consecutive states of reconstruction a wallet loses
units to a transfer only, which its own controller signed (`transfers_safe`).
-/

namespace StnChain

/-! ## The units of a wallet -/

/-- The exact units of a wallet. -/
def EconomicState.unitsOf (s : EconomicState) (wallet : Octets 32) : ℕ :=
  SortedTable.total (fun b => if b.walletId = wallet then b.units.toNat else 0) s.balances

/-- A conserved state reports the exact units of every wallet. -/
theorem EconomicState.Conserved.balance {s : EconomicState} (hs : s.Conserved)
    (wallet : Octets 32) :
    ∃ units, economicStateBalance s ⟨.wallet, wallet⟩ = .ok units ∧
      units.toNat = s.unitsOf wallet := by
  have htotal := hs.sorted.total_key (k := wallet.toNat) fun b => b.units.toNat
  have hunits : s.unitsOf wallet =
      ((SortedTable.find EconomicBalance.key wallet.toNat s.balances).map
        fun b => b.units.toNat).getD 0 := by
    rw [← htotal]
    simp only [EconomicState.unitsOf, EconomicBalance.key, BitVec.toNat_inj]
  rw [hunits]
  simp only [economicStateBalance, ne_eq, not_true_eq_false, ↓reduceIte, not_lt.mpr hs.within]
  cases SortedTable.find EconomicBalance.key wallet.toNat s.balances with
  | none => exact ⟨0, rfl, rfl⟩
  | some b => exact ⟨b.units, rfl, rfl⟩

/-- An accepted issuance credits its units to its wallet and to no other. -/
theorem economicStateApply_credits {s s' : EconomicState} {r : IssuanceRecord}
    (h : economicStateApply s r = .ok s') (wallet : Octets 32) :
    s'.unitsOf wallet = s.unitsOf wallet +
      if r.destination.wallet.identifier = wallet then r.units.toNat else 0 := by
  obtain ⟨-, hcase⟩ := economicStateApply_cases h
  rcases hcase with ⟨b, rest, hcons, hwallet, hguard, rfl⟩ | ⟨-, -, rfl⟩
  · have htotal := SortedTable.total_modify
      (fun b : EconomicBalance => if b.walletId = wallet then b.units.toNat else 0)
      (fun b => { b with units := b.units + r.units })
      (SortedTable.getElem?_length_below hcons)
    have hunits := toNat_add_of_guard hguard
    simp only [hwallet] at htotal
    simp only [EconomicState.unitsOf]
    split_ifs at htotal ⊢ <;> omega
  · simp only [EconomicState.unitsOf, SortedTable.total_insert]

/-- An accepted issuance lowers the units of no wallet. -/
theorem economicStateApply_unitsOf {s s' : EconomicState} {r : IssuanceRecord}
    (h : economicStateApply s r = .ok s') (wallet : Octets 32) :
    s.unitsOf wallet ≤ s'.unitsOf wallet := by
  rw [economicStateApply_credits h wallet]
  exact Nat.le_add_right _ _

/-- A transfer moves its units from its source to its destination. -/
theorem economicStateApplyTransfer_unitsOf {s s' : EconomicState} {t : Transfer}
    (h : economicStateApplyTransfer s t = .ok s') (wallet : Octets 32) :
    s'.unitsOf wallet + (if t.source.identifier = wallet then t.units.toNat else 0) =
      s.unitsOf wallet + if t.destination.identifier = wallet then t.units.toNat else 0 := by
  obtain ⟨hdistinct, i, hsource, henough, hcase⟩ := economicStateApplyTransfer_cases h
  obtain ⟨a, ha, hawallet⟩ := walletIndex_eq_some hsource
  have hle : t.units ≤ a.units := by simpa [unitsAt, ha] using henough
  have hsub := UInt64.toNat_sub_of_le _ _ hle
  have hnat := UInt64.le_iff_toNat_le.mp hle
  have hdebit := SortedTable.total_modify
    (fun b : EconomicBalance => if b.walletId = wallet then b.units.toNat else 0)
    (fun b => { b with units := b.units - t.units }) ha
  simp only [hawallet] at hdebit
  rcases hcase with ⟨j, hdestination, hguard, rfl⟩ | ⟨-, -, rfl⟩
  · obtain ⟨b, hb, hbwallet⟩ := walletIndex_eq_some hdestination
    have hij : i ≠ j := by
      rintro rfl
      obtain rfl : a = b := Option.some.inj (ha.symm.trans hb)
      exact hdistinct (hawallet.symm.trans hbwallet)
    have hb' : (s.balances.modify i fun b => { b with units := b.units - t.units })[j]? =
        some b := by
      simp [hij, hb]
    have hcredit := SortedTable.total_modify
      (fun b : EconomicBalance => if b.walletId = wallet then b.units.toNat else 0)
      (fun b => { b with units := b.units + t.units }) hb'
    simp only [hbwallet] at hcredit
    have hunits := toNat_add_of_guard (by simpa [unitsAt, hb] using hguard)
    simp only [EconomicState.unitsOf, hsub, hunits] at hdebit hcredit ⊢
    split_ifs at hdebit hcredit ⊢ <;> omega
  · have hinsert : SortedTable.total
        (fun b : EconomicBalance => if b.walletId = wallet then b.units.toNat else 0)
        (SortedTable.insert EconomicBalance.key ⟨t.destination.identifier, t.units⟩
          (s.balances.modify i fun b => { b with units := b.units - t.units })) =
        SortedTable.total (fun b => if b.walletId = wallet then b.units.toNat else 0)
          (s.balances.modify i fun b => { b with units := b.units - t.units }) +
            if t.destination.identifier = wallet then t.units.toNat else 0 :=
      SortedTable.total_insert _ _
    simp only [EconomicState.unitsOf, hsub] at hdebit hinsert ⊢
    split_ifs at hdebit hinsert ⊢ <;> omega

/-! ## Accepted envelopes -/

/-- What the replay set consumes of an envelope. -/
def TransferEnvelope.key (e : TransferEnvelope) : ReplayId :=
  ⟨e.controller, e.nonce⟩

/-- A fresh consumption appends the controller and the nonce, which were not there. -/
theorem transferEnvelopeReplayConsume_fresh {s s' : TransferEnvelopeReplayState}
    {e : TransferEnvelope} (h : transferEnvelopeReplayConsume s e = (.fresh, s')) :
    s.consumed.length < s.capacity ∧ e.key ∉ s.consumed ∧
      s' = { s with consumed := s.consumed ++ [e.key] } := by
  simp only [transferEnvelopeReplayConsume, transferEnvelopeReplayCheck] at h
  split at h
  · simp at h
  next hwithin =>
  cases hkey : transferEnvelopeReplayKey e with
  | none => simp [hkey] at h
  | some key =>
      obtain rfl : key = e.key := replayIdFromSignerNonce_eq_some hkey
      by_cases hmem : e.key ∈ s.consumed
      · simp [hkey, hmem] at h
      · simp only [hkey, hmem, ↓reduceIte] at h
        split at h
        · simp at h
        next hfull => exact ⟨by omega, hmem, (Prod.mk.inj h).2.symm⟩

section

variable [Primitives]

/-- The controller of an envelope owns a wallet, its transfer draws on that wallet,
and the controller signed the nonce and the transfer. -/
structure TransferEnvelope.Controls (e : TransferEnvelope) (wallet : Octets 32) : Prop where
  derives : walletDerive ⟨.identity, e.controller⟩ = .ok ⟨.wallet, wallet⟩
  source : e.transfer.source.identifier = wallet
  signed : ∃ transfer, transferEncode e.transfer = .ok transfer ∧
    identityVerify e.controller (cString "STN-CHAIN:TRANSFER:ENVELOPE:AUTHORIZE:1" ++ [1] ++
      octetBytes e.controller ++ octetBytes e.nonce ++ transfer) e.signature = .valid

theorem transferEnvelopeAuthorizationVerify_eq_ok {e : TransferEnvelope}
    (h : transferEnvelopeAuthorizationVerify e = .ok ()) :
    e.Controls e.transfer.source.identifier := by
  simp only [transferEnvelopeAuthorizationVerify] at h
  split at h
  · simp at h
  next statement hstatement =>
  split at h
  · next hvalid =>
      simp only [transferEnvelopeAuthorizationStatement] at hstatement
      split at hstatement
      · simp at hstatement
      split at hstatement
      · simp at hstatement
      next identity hidentity =>
      obtain rfl := identityDerive_eq_some hidentity
      split at hstatement
      · simp at hstatement
      next wallet hwallet =>
      split at hstatement
      · simp at hstatement
      next hsource =>
      split at hstatement
      · simp at hstatement
      next transfer htransfer =>
      have htype : wallet.type = .wallet := by
        simp only [walletDerive, addressDerive] at hwallet
        split at hwallet
        · simp at hwallet
        split at hwallet
        · simp at hwallet
        split at hwallet
        · simp at hwallet
        exact (Except.ok.inj hwallet) ▸ rfl
      refine ⟨?_, rfl, transfer, htransfer, ?_⟩
      · rw [hwallet, ← not_not.mp hsource, ← htype]
      · rw [Except.ok.inj hstatement]
        exact hvalid
  · simp at h

/-- The transfer envelope a transaction carries. -/
def Transaction.transfer (tx : Transaction) : Option TransferEnvelope :=
  if tx.type = .transfer then (transferEnvelopeDecode tx.record).toOption else none

/-- The transfer envelopes of a history, in order. -/
def historyTransfers (blocks : List Bytes) : List TransferEnvelope :=
  (historyTransactions blocks).filterMap Transaction.transfer

omit [Primitives] in
theorem transfer_eq_some_iff {tx : Transaction} {e : TransferEnvelope} :
    tx.transfer = some e ↔ tx.type = .transfer ∧ transferEnvelopeDecode tx.record = .ok e := by
  simp only [Transaction.transfer, Option.ite_none_right_eq_some]
  cases transferEnvelopeDecode tx.record <;> simp [Except.toOption]

omit [Primitives] in
theorem transfer_of_type {tx : Transaction} (h : tx.type ≠ .transfer) : tx.transfer = none := by
  simp [Transaction.transfer, h]

/-! ## The replay set -/

/-- The replay set gains the key of each envelope, and nothing else. -/
theorem transfers_advance :
    Advances (fun s => s.economy.replay.consumed)
      fun keys tx => keys ++ (tx.transfer.map TransferEnvelope.key).toList where
  inherit h := h.transfers
  single {env tx s s'} h := by
    cases stepOf_of_applyTransaction h with
    | transfer htype happly =>
        obtain ⟨e, hdecode, haccept⟩ := applyTransfer_eq_ok happly
        obtain ⟨-, -, hconsume⟩ := transferEnvelopeAccept_eq_ok haccept
        obtain ⟨-, -, hreplay⟩ := transferEnvelopeReplayConsume_fresh hconsume
        simp [hreplay, transfer_eq_some_iff.mpr ⟨htype, hdecode⟩]
    | issuance htype _ | share htype _ | destination htype _ | contract htype _ =>
        have hnone : tx.transfer = none := transfer_of_type (by simp [htype])
        simp [hnone]
    | lifecycle htype _ =>
        have hne : tx.type ≠ .transfer := by
          rintro heq
          simp [heq, TransactionType.isLifecycle] at htype
        simp [transfer_of_type hne]
  pair {env tx tx' next s s'} htype hdecode h := by
    obtain ⟨_, tx'', _, _, _, _, _, hdecode', htype', _, _, _, _, _, rfl⟩ := applyPair_eq_ok h
    obtain rfl := Except.ok.inj (hdecode.symm.trans hdecode')
    have hnone : tx.transfer = none := transfer_of_type (by simp [htype])
    have hnone' : tx'.transfer = none := transfer_of_type (by simp [htype'])
    simp [hnone, hnone']

/-- No key is consumed twice. -/
theorem transfers_nodup_preserved : Preserved fun s => s.economy.replay.consumed.Nodup where
  inherit h hs := h.transfers ▸ hs
  single h hs := by
    cases stepOf_of_applyTransaction h with
    | transfer _ happly =>
        obtain ⟨e, -, haccept⟩ := applyTransfer_eq_ok happly
        obtain ⟨-, -, hconsume⟩ := transferEnvelopeAccept_eq_ok haccept
        obtain ⟨-, hfresh, hreplay⟩ := transferEnvelopeReplayConsume_fresh hconsume
        rw [hreplay]
        apply List.nodup_append.mpr
        refine ⟨hs, by simp, fun key hkey key' hkey' heq => ?_⟩
        apply hfresh
        rwa [← List.mem_singleton.mp hkey', ← heq]
    | issuance _ _ | share _ _ | destination _ _ | contract _ _ | lifecycle _ _ => exact hs
  pair h hs := by
    obtain ⟨_, _, _, _, _, _, _, _, _, _, _, _, _, _, rfl⟩ := applyPair_eq_ok h
    exact hs

theorem Reaches.transfers_nodup {c : ChainContext} {blocks : List Bytes} {s : ChainState}
    (h : Reaches c blocks s) : ((historyTransfers blocks).map TransferEnvelope.key).Nodup := by
  have hlog := h.log transfers_advance fun _ => rfl
  have hnodup := h.preserves transfers_nodup_preserved fun _ => List.nodup_nil
  rwa [hlog, ← List.map_filterMap] at hnodup

/-! ## The states of reconstruction -/

/-- Reconstruction of some blocks prepares a candidate for the transactions of one of them. -/
def CandidateOf (c : ChainContext) (blocks : List Bytes) (env : CandidateEnv) (ts : List Bytes)
    (prior candidate : ChainState) : Prop :=
  ∃ past bytes rest b flags, blocks = past ++ bytes :: rest ∧ Reaches c past prior ∧
    CandidatePrepared c prior bytes true b flags candidate ∧
    env = candidateEnv c prior (some past) b flags ∧ ts = b.transactions

/-- Two consecutive states of reconstruction and the transactions applied between
them: a block's candidate replaces its prior, or the loop takes one round. -/
inductive HistoryMove (c : ChainContext) (blocks : List Bytes) :
    List Transaction → ChainState → ChainState → Prop
  | candidate {env : CandidateEnv} {ts : List Bytes} {prior candidate : ChainState} :
      CandidateOf c blocks env ts prior candidate → HistoryMove c blocks [] prior candidate
  | single {env : CandidateEnv} {pre post : List Bytes} {t : Bytes} {tx : Transaction}
      {prior candidate before after : ChainState} :
      CandidateOf c blocks env (pre ++ t :: post) prior candidate →
      Applied env pre candidate before → transactionDecode t = .ok tx →
      applyTransaction env tx before = .ok after → HistoryMove c blocks [tx] before after
  | pair {env : CandidateEnv} {pre post : List Bytes} {t next : Bytes} {tx tx' : Transaction}
      {prior candidate before after : ChainState} :
      CandidateOf c blocks env (pre ++ t :: next :: post) prior candidate →
      Applied env pre candidate before → transactionDecode t = .ok tx →
      transactionDecode next = .ok tx' → applyPair env tx next before = .ok after →
      HistoryMove c blocks [tx, tx'] before after

/-- A candidate of a front of a history is a candidate of the history. -/
theorem CandidateOf.append {c : ChainContext} {blocks : List Bytes} {env : CandidateEnv}
    {ts : List Bytes} {prior candidate : ChainState}
    (h : CandidateOf c blocks env ts prior candidate) (more : List Bytes) :
    CandidateOf c (blocks ++ more) env ts prior candidate := by
  obtain ⟨past, bytes, rest, b, flags, rfl, h⟩ := h
  exact ⟨past, bytes, rest ++ more, b, flags, by simp, h⟩

theorem HistoryMove.append {c : ChainContext} {blocks : List Bytes} {txs : List Transaction}
    {before after : ChainState} (h : HistoryMove c blocks txs before after)
    (more : List Bytes) : HistoryMove c (blocks ++ more) txs before after := by
  cases h with
  | candidate hof => exact .candidate (hof.append more)
  | single hof hpre hdecode hstep => exact .single (hof.append more) hpre hdecode hstep
  | pair hof hpre hdecode hdecode' hstep =>
      exact .pair (hof.append more) hpre hdecode hdecode' hstep

theorem Applied.append {env : CandidateEnv} {pre ts : List Bytes} {s t u : ChainState}
    (hpre : Applied env pre s t) (hts : Applied env ts t u) : Applied env (pre ++ ts) s u := by
  induction hpre with
  | nil => exact hts
  | single hdecode htype hstep _ ih => exact .single hdecode htype hstep (ih hts)
  | pair hdecode htype hstep _ ih => exact .pair hdecode htype hstep (ih hts)

/-- The rest of a candidate's loop is a run of moves. -/
theorem CandidateOf.moves {c : ChainContext} {blocks : List Bytes} {env : CandidateEnv}
    {prior candidate : ChainState} {pre ts : List Bytes} {s s' : ChainState}
    (h : CandidateOf c blocks env (pre ++ ts) prior candidate)
    (hpre : Applied env pre candidate s) (hts : Applied env ts s s') :
    Relation.ReflTransGen (fun s t => ∃ txs, HistoryMove c blocks txs s t) s s' := by
  induction hts generalizing pre with
  | nil => exact .refl
  | @single t tx rest s s₁ s' hdecode htype hstep _ ih =>
      apply Relation.ReflTransGen.head ⟨[tx], .single h hpre hdecode hstep⟩
      refine ih (?_ : CandidateOf c blocks env ((pre ++ [t]) ++ rest) prior candidate) ?_
      · rwa [List.append_assoc]
      · exact hpre.append (.single hdecode htype hstep .nil)
  | @pair t next tx rest s s₁ s' hdecode htype hstep _ ih =>
      obtain ⟨_, tx', _, _, _, _, _, hdecode', _⟩ := applyPair_eq_ok hstep
      apply Relation.ReflTransGen.head ⟨[tx, tx'], .pair h hpre hdecode hdecode' hstep⟩
      refine ih (?_ : CandidateOf c blocks env ((pre ++ [t, next]) ++ rest) prior candidate) ?_
      · rwa [List.append_assoc]
      · exact hpre.append (.pair hdecode htype hstep .nil)

/-- Every accepted history is a run of moves. -/
theorem Reaches.moves {c : ChainContext} {blocks : List Bytes} {s : ChainState}
    (h : Reaches c blocks s) :
    ∃ initial, chainInitialize c = .ok initial ∧
      Relation.ReflTransGen (fun s t => ∃ txs, HistoryMove c blocks txs s t) initial s := by
  refine h.invariant (P := fun blocks s => ∃ initial, chainInitialize c = .ok initial ∧
    Relation.ReflTransGen (fun s t => ∃ txs, HistoryMove c blocks txs s t) initial s) ?_ ?_
  · intro s hs
    exact ⟨s, hs, .refl⟩
  · intro past s bytes b flags candidate s' hreach hP hprepared happlied
    obtain ⟨initial, hinit, hmoves⟩ := hP
    have hof : CandidateOf c (past ++ [bytes]) (candidateEnv c s (some past) b flags)
        ([] ++ b.transactions) s candidate :=
      ⟨past, bytes, [], b, flags, rfl, hreach, hprepared, rfl, rfl⟩
    refine ⟨initial, hinit, ?_⟩
    apply Relation.ReflTransGen.trans
    · refine hmoves.lift id ?_
      rintro s t ⟨txs, hmove⟩
      exact ⟨txs, hmove.append [bytes]⟩
    · exact .head ⟨[], .candidate hof⟩ (hof.moves .nil happlied)

/-! ## Where units go -/

theorem HistoryMove.conserved {c : ChainContext} {blocks : List Bytes} {txs : List Transaction}
    {before after : ChainState} (h : HistoryMove c blocks txs before after) :
    before.economy.state.Conserved ∧ after.economy.state.Conserved := by
  have hstart {env : CandidateEnv} {ts : List Bytes} {prior candidate : ChainState}
      (hof : CandidateOf c blocks env ts prior candidate) :
      prior.economy.state.Conserved ∧ candidate.economy.state.Conserved := by
    obtain ⟨_, _, _, _, _, -, hprior, hprepared, -⟩ := hof
    obtain ⟨-, -, -, -, -, -, hinherit⟩ := hprepared.next_state
    have hconserved := hprior.preserves conserved_preserved (emptyState_conserved c)
    exact ⟨hconserved, conserved_preserved.inherit hinherit hconserved⟩
  cases h with
  | candidate hof => exact hstart hof
  | single hof hpre _ hstep =>
      have hbefore := hpre.preserves conserved_preserved (hstart hof).2
      exact ⟨hbefore, conserved_preserved.single hstep hbefore⟩
  | pair hof hpre _ _ hstep =>
      have hbefore := hpre.preserves conserved_preserved (hstart hof).2
      exact ⟨hbefore, conserved_preserved.pair hstep hbefore⟩

/-- A wallet loses units to a transfer only, which its controller signed. -/
theorem HistoryMove.debit {c : ChainContext} {blocks : List Bytes} {txs : List Transaction}
    {before after : ChainState} (h : HistoryMove c blocks txs before after) {wallet : Octets 32}
    (hlt : after.economy.state.unitsOf wallet < before.economy.state.unitsOf wallet) :
    ∃ tx e, txs = [tx] ∧ tx.transfer = some e ∧ e ∈ historyTransfers blocks ∧
      e.Controls wallet ∧ before.economy.state.unitsOf wallet =
        after.economy.state.unitsOf wallet + e.transfer.units.toNat := by
  cases h with
  | candidate hof =>
      obtain ⟨_, _, _, _, _, -, -, hprepared, -⟩ := hof
      obtain ⟨-, -, -, -, -, -, hinherit⟩ := hprepared.next_state
      simp [EconomicState.unitsOf, hinherit.balances] at hlt
  | pair _ _ _ _ hstep =>
      obtain ⟨_, _, _, _, _, _, _, _, _, _, _, _, _, heconomy, rfl⟩ := applyPair_eq_ok hstep
      exact absurd hlt (not_lt.mpr (economicStateApply_unitsOf heconomy wallet))
  | @single env pre post t tx prior candidate _ _ hof hpre hdecode hstep =>
      cases stepOf_of_applyTransaction hstep with
      | issuance _ happly =>
          obtain ⟨_, _, _, _, _, _, _, _, _, heconomy⟩ := applyIssuance_eq_ok happly
          exact absurd hlt (not_lt.mpr (economicStateApply_unitsOf heconomy wallet))
      | destination _ _ | contract _ _ | share _ _ | lifecycle _ _ =>
          exact absurd hlt (lt_irrefl _)
      | transfer htype happly =>
          obtain ⟨e, hrecord, haccept⟩ := applyTransfer_eq_ok happly
          obtain ⟨hverify, htransfer, -⟩ := transferEnvelopeAccept_eq_ok haccept
          have hmoved := economicStateApplyTransfer_unitsOf htransfer wallet
          have hcontrols := transferEnvelopeAuthorizationVerify_eq_ok hverify
          have hdistinct := (economicStateApplyTransfer_cases htransfer).1
          have hsome : tx.transfer = some e := transfer_eq_some_iff.mpr ⟨htype, hrecord⟩
          have hmem : e ∈ historyTransfers blocks := by
            obtain ⟨past, bytes, rest, b, _, rfl, -, hprepared, -, hts⟩ := hof
            apply List.mem_filterMap.mpr
            refine ⟨tx, List.mem_flatMap.mpr ⟨bytes, by simp, ?_⟩, hsome⟩
            rw [blockTransactions_of_decode hprepared.decode, ← hts]
            exact mem_decodedTransactions.mpr ⟨t, by simp, hdecode⟩
          dsimp only at hlt ⊢
          -- Only the source's units fall, so the wallet is the source.
          obtain rfl : e.transfer.source.identifier = wallet := by
            by_contra hsource
            simp only [hsource, ↓reduceIte] at hmoved
            split at hmoved <;> omega
          rw [if_pos rfl, if_neg hdistinct.symm] at hmoved
          exact ⟨tx, e, rfl, hsome, hmem, hcontrols, hmoved.symm⟩

/-- Over an accepted history each controller and nonce is consumed by one envelope at
most, and between consecutive states a wallet's balance falls only by a transfer
that its controller signed, by exactly the units of the transfer. -/
theorem transfers_safe {c : ChainContext} {blocks : List Bytes} {s : ChainState}
    (h : Accepts c blocks s) :
    ((historyTransfers blocks).map fun e => (e.controller, e.nonce)).Nodup ∧
      ∀ txs before after, HistoryMove c blocks txs before after → ∀ wallet, ∃ units units',
        economicStateBalance before.economy.state ⟨.wallet, wallet⟩ = .ok units ∧
        economicStateBalance after.economy.state ⟨.wallet, wallet⟩ = .ok units' ∧
        (units' < units → ∃ tx e, txs = [tx] ∧ tx.transfer = some e ∧
          e ∈ historyTransfers blocks ∧ e.Controls wallet ∧
          units.toNat = units'.toNat + e.transfer.units.toNat) := by
  obtain ⟨-, hreach⟩ := accepts_iff.mp h
  constructor
  · have hkeys := hreach.transfers_nodup
    refine List.Nodup.of_map (fun key : Octets 32 × Octets 32 => (⟨key.1, key.2⟩ : ReplayId)) ?_
    rwa [List.map_map]
  · intro txs before after hmove wallet
    obtain ⟨hbefore, hafter⟩ := hmove.conserved
    obtain ⟨units, hunits, hexact⟩ := hbefore.balance wallet
    obtain ⟨units', hunits', hexact'⟩ := hafter.balance wallet
    refine ⟨units, units', hunits, hunits', fun hlt => ?_⟩
    rw [hexact, hexact']
    apply hmove.debit
    rw [← hexact, ← hexact']
    exact UInt64.lt_iff_toNat_lt.mp hlt

end

section Sample

/-! ## A sample transfer -/

namespace Sample

/-- SHA-256 of what validating the transfer hashes, by residues modulo `2 ^ 61 - 1`. -/
def transferDigests : List (ℕ × ℕ) :=
  [(0x1ac7d720672ecd5c,
      0xfa6760b01c2edd9e0e724fe121535f9e5d77b85d9b47c24156909249c2b15e50),
   (0x9fdfe6ac644f1b,
      0x66d88c102df944fddcee93cd4895617b41bab24efa7af58d7027c0632ceda00a),
   (0x139c983e99347152,
      0xadde70cd0554623b019479057ff7278791945ee1153ab403991624c619821bad),
   (0x164d49dee3be6af1,
      0x786e576f8e2ab6d77fcbda3545756b68d1c809ee39604eacb84056112b5bb158),
   (0xa70151617741881,
      0x874ea7b44374a7c86287b439ce0d3bc4b69a9ea8314d2e498d0abc44c6be73f7),
   (0x30480d499db22a5,
      0x27604493d5aa847e5268d13872b5013537f826c4cc35302b9c4dcc47fa621959),
   (0x1a8a1200b391e683,
      0xd25fb0e68982f5b682a92aaef6987dce5c5c16ea483a3f4bd7d7521151388fa2),
   (0x1e00154dd5c1b218,
      0x049390a8ff6b1dbe1af11827da1e88889b7aff7d83a8c4699e6deaa9bc8ddc4a)]

/-- The public key of a miner, and the wallet derived from it. -/
def carol : CompensationDestination :=
  ⟨⟨.identity, 0xb3f9ad7b65dfb8d0de5d15564acd52dc6c080f0424a1d5744fe712a0cf59bda3⟩,
    ⟨.wallet, 0xfa6760b01c2edd9e0e724fe121535f9e5d77b85d9b47c24156909249c2b15e50⟩⟩

/-- The unsigned transfer of the sample. -/
def payment : Transfer :=
  ⟨carol.wallet, alice.wallet, 2500⟩

/-- The octets of the sample's transfer. -/
def paymentBytes : Bytes :=
  [1] ++ octetBytes payment.source.identifier ++ octetBytes payment.destination.identifier ++
    wireWrite 8 payment.units.toNat

/-- The nonce of the sample's envelope. -/
def paymentNonce : Bytes := List.replicate 32 7

/-- The miner's signature of the transfer. -/
def paymentSignature : Octets 64 :=
  BitVec.ofNat 512 (0x3259f8010e706b02abd73e2f26e9210d8fd6dc13d7ef6037e24e20b7d806b845 * 2 ^ 256 +
    0x18be5f2760818800a4a0d8b65dd29d4f833106aee9fc06cd93d187016012710e)

/-- SHA-256 and Ed25519 as far as the transfer asks for them. -/
@[reducible] def signing : Primitives where
  sha256 domain bytes := .ok (BitVec.ofNat 256 (((transferDigests ++ digests).lookup
    (BigEndian.read (domain ++ bytes) % (2 ^ 61 - 1))).getD 1))
  ed25519Verify statement key signature :=
    decide (statement = cString "STN-CHAIN:TRANSFER:ENVELOPE:AUTHORIZE:1" ++ [1] ++
        octetBytes carol.miningIdentity.identifier ++ paymentNonce ++ paymentBytes ∧
      key = carol.miningIdentity.identifier ∧ signature = paymentSignature)

/-- The miner's envelope. -/
def paymentEnvelope : Bytes :=
  transaction .transfer ([1] ++ octetBytes carol.miningIdentity.identifier ++ paymentNonce ++
    paymentBytes ++ octetBytes paymentSignature)

/-- The miner's destination, its reward for the empty block, and its transfer. -/
def paid : Bytes :=
  block emptyId 2
    0xadde70cd0554623b019479057ff7278791945ee1153ab403991624c619821bad 82
    [destination carol, evidence emptyId carol,
      issuance issuanceReasonBlock issuanceBlockUnits
        0x66d88c102df944fddcee93cd4895617b41bab24efa7af58d7027c0632ceda00a carol, paymentEnvelope]

/-- The context of the sample, with the signatures of the transfer. -/
def signingContext : ChainContext :=
  { context with hashProvider := ⟨some signing.sha256⟩ }

end Sample

attribute [local instance] Sample.signing

open Sample

/-- The payment leaves the miner 7500 units, and only its own envelope can have done so. -/
theorem sample_transfers_safe : ∃ s, Accepts signingContext [genesis, empty, paid] s ∧
    economicStateBalance s.economy.state carol.wallet = .ok 7500 ∧
    (historyTransfers [genesis, empty, paid]).length = 1 ∧
    ((historyTransfers [genesis, empty, paid]).map fun e => (e.controller, e.nonce)).Nodup ∧
    ∀ txs before after, HistoryMove signingContext [genesis, empty, paid] txs before after →
      economicStateBalance before.economy.state carol.wallet = .ok 10000 →
      economicStateBalance after.economy.state carol.wallet = .ok 7500 →
      ∃ tx e, txs = [tx] ∧ tx.transfer = some e ∧ e.Controls carol.wallet.identifier ∧
        e.transfer.units = 2500 := by
  obtain ⟨s, haccepts, hbalance⟩ := accepts_of_any signingContext [genesis, empty, paid]
    (fun s => economicStateBalance s.economy.state carol.wallet = .ok 7500) (by decide +kernel)
  obtain ⟨hnodup, hmoves⟩ := transfers_safe haccepts
  refine ⟨s, haccepts, of_decide_eq_true hbalance, by decide +kernel, hnodup, ?_⟩
  intro txs before after hmove hbefore hafter
  obtain ⟨units, units', hunits, hunits', hdebit⟩ := hmoves txs before after hmove
    carol.wallet.identifier
  obtain rfl : 10000 = units := Except.ok.inj (hbefore.symm.trans hunits)
  obtain rfl : 7500 = units' := Except.ok.inj (hafter.symm.trans hunits')
  obtain ⟨tx, e, htxs, hsome, -, hcontrols, hexact⟩ := hdebit (by decide)
  refine ⟨tx, e, htxs, hsome, hcontrols, UInt64.toNat_inj.mp ?_⟩
  have hleft : (10000 : UInt64).toNat = 10000 := rfl
  have hright : (7500 : UInt64).toNat = 7500 := rfl
  have hunits : (2500 : UInt64).toNat = 2500 := rfl
  omega

end Sample

end StnChain
