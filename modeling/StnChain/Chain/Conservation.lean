import StnChain.Chain.History

/-!
# Conservation of units

Over an accepted history the economic state stays sorted and its supply is the
exact sum of the balances and of the units of all accepted issuances
(`economy_conserved`).  A transfer changes neither.
-/

namespace StnChain

section

variable [Primitives]

/-- The units an issuance transaction issues; every other transaction issues none. -/
def issuedUnits (tx : Transaction) : ℕ :=
  if tx.type = .issuance then
    match issuanceDecode tx.record with
    | .ok r => r.units.toNat
    | .error _ => 0
  else 0

/-- The exact sum of the units issued by the transactions of a history. -/
def totalIssued (blocks : List Bytes) : ℕ :=
  ((historyTransactions blocks).map issuedUnits).sum

omit [Primitives] in
theorem issuedUnits_of_decode {tx : Transaction} {r : IssuanceRecord}
    (htype : tx.type = .issuance) (hdecode : issuanceDecode tx.record = .ok r) :
    issuedUnits tx = r.units.toNat := by
  simp [issuedUnits, htype, hdecode]

omit [Primitives] in
theorem issuedUnits_of_type {tx : Transaction} (htype : tx.type ≠ .issuance) :
    issuedUnits tx = 0 := by
  simp [issuedUnits, htype]

/-! ## The supply -/

omit [Primitives] in
theorem economicStateApply_supply {s s' : EconomicState} {r : IssuanceRecord}
    (h : economicStateApply s r = .ok s') :
    s'.totalSupply.toNat = s.totalSupply.toNat + r.units.toNat := by
  obtain ⟨hsupply, hcase⟩ := economicStateApply_cases h
  rcases hcase with ⟨_, _, _, _, _, rfl⟩ | ⟨_, _, rfl⟩ <;> exact toNat_add_of_guard hsupply

omit [Primitives] in
theorem economicStateApplyTransfer_supply {s s' : EconomicState} {t : Transfer}
    (h : economicStateApplyTransfer s t = .ok s') : s'.totalSupply = s.totalSupply := by
  obtain ⟨_, _, _, _, hcase⟩ := economicStateApplyTransfer_cases h
  rcases hcase with ⟨_, _, _, rfl⟩ | ⟨_, _, rfl⟩ <;> rfl

/-- Every transaction raises the supply by the units it issues. -/
theorem supply_advances :
    Advances (fun s => s.economy.state.totalSupply.toNat)
      (fun supply tx => supply + issuedUnits tx) where
  inherit h := by rw [h.supply]
  single h := by
    cases stepOf_of_applyTransaction h with
    | issuance htype happly =>
        obtain ⟨r, _, _, hdecode, _, _, _, _, _, heconomy⟩ := applyIssuance_eq_ok happly
        rw [issuedUnits_of_decode htype hdecode]
        exact economicStateApply_supply heconomy
    | transfer htype happly =>
        obtain ⟨envelope, _, haccept⟩ := applyTransfer_eq_ok happly
        obtain ⟨_, htransfer, _⟩ := transferEnvelopeAccept_eq_ok haccept
        rw [issuedUnits_of_type (by simp [htype])]
        exact congrArg UInt64.toNat (economicStateApplyTransfer_supply htransfer)
    | destination htype _ | contract htype _ | share htype _ =>
        rw [issuedUnits_of_type (by simp [htype])]
        rfl
    | lifecycle htype _ =>
        rw [issuedUnits_of_type (by rintro h; simp [h, TransactionType.isLifecycle] at htype)]
        rfl
  pair htype hdecode h := by
    obtain ⟨_, tx', r, _, _, _, _, hdecode', htype', hr, _, _, _, heconomy, rfl⟩ :=
      applyPair_eq_ok h
    obtain rfl := Except.ok.inj (hdecode.symm.trans hdecode')
    rw [issuedUnits_of_type (by simp [htype]), issuedUnits_of_decode htype' hr]
    exact economicStateApply_supply heconomy

/-! ## The invariant -/

/-- Candidates inherit conservation and every round keeps it. -/
theorem conserved_preserved : Preserved fun s => s.economy.state.Conserved where
  inherit h hprior := by
    refine ⟨h.balancesWithin hprior.within, h.balances ▸ hprior.sorted, ?_⟩
    have hsupply := hprior.supply
    simp only [EconomicState.held] at hsupply ⊢
    rw [h.supply, h.balances, hsupply]
  single h hs := by
    cases stepOf_of_applyTransaction h with
    | issuance _ happly =>
        obtain ⟨_, _, _, _, _, _, _, _, _, heconomy⟩ := applyIssuance_eq_ok happly
        exact (economicStateApply_conserved hs heconomy).1
    | transfer _ happly =>
        obtain ⟨_, _, haccept⟩ := applyTransfer_eq_ok happly
        obtain ⟨_, htransfer, _⟩ := transferEnvelopeAccept_eq_ok haccept
        exact (economicStateApplyTransfer_conserved hs htransfer).1
    | destination _ _ | contract _ _ | share _ _ | lifecycle _ _ => exact hs
  pair h hs := by
    obtain ⟨_, _, _, _, _, _, _, _, _, _, _, _, _, heconomy, rfl⟩ := applyPair_eq_ok h
    exact (economicStateApply_conserved hs heconomy).1

omit [Primitives] in
theorem emptyState_conserved (c : ChainContext) (activation : UInt64) :
    (emptyState c activation).economy.state.Conserved :=
  ⟨le_refl _, List.Pairwise.nil, rfl⟩

/-! ## Accepted histories -/

/-- A transfer leaves the supply and the sum of the balances as they are. -/
theorem RoundAt.conserved {c : ChainContext} {past : List Bytes} {bytes : Bytes}
    {pre : List Bytes} {tx : Transaction} {before after : ChainState}
    (h : RoundAt c past bytes pre tx before after) (htype : tx.type = .transfer) :
    after.economy.state.totalSupply = before.economy.state.totalSupply ∧
      after.economy.state.held = before.economy.state.held := by
  have hbefore := h.before conserved_preserved (emptyState_conserved c)
  obtain ⟨_, _, _, _, _, _, _, _, _, hround, _⟩ := h
  have hafter := conserved_preserved.single hround hbefore
  have hissued := supply_advances.single hround
  rw [issuedUnits_of_type (by simp [htype]), Nat.add_zero] at hissued
  refine ⟨UInt64.toNat_inj.mp hissued, ?_⟩
  rw [← hafter.supply, ← hbefore.supply, hissued]

/-- The economy of an accepted history: balances increase strictly by wallet, the
supply is their exact sum and the exact sum of the units issued, and no transfer
changes the supply or the sum. -/
theorem economy_conserved {c : ChainContext} {blocks : List Bytes} {s : ChainState}
    (h : Accepts c blocks s) :
    (s.economy.state.balances.map EconomicBalance.key).Pairwise (· < ·) ∧
      (s.economy.state.balances.map EconomicBalance.walletId).Nodup ∧
      s.economy.state.totalSupply.toNat = s.economy.state.held ∧
      s.economy.state.totalSupply.toNat = totalIssued blocks ∧
      ∀ past bytes rest pre t post tx, blocks = past ++ bytes :: rest →
        blockTransactions bytes = pre ++ t :: post → transactionDecode t = .ok tx →
        tx.type = .transfer →
        ∃ before after, RoundAt c past bytes pre tx before after ∧
          after.economy.state.totalSupply = before.economy.state.totalSupply ∧
          after.economy.state.held = before.economy.state.held := by
  obtain ⟨-, hreach⟩ := accepts_iff.mp h
  have hconserved := hreach.preserves conserved_preserved (emptyState_conserved c)
  have hsorted := SortedTable.sorted_iff_pairwise_map.mp hconserved.sorted
  refine ⟨hsorted, ?_, hconserved.supply, ?_, ?_⟩
  · have hkeys : (s.economy.state.balances.map EconomicBalance.key).Nodup :=
      hsorted.imp fun hlt => ne_of_lt hlt
    refine List.Nodup.of_map BitVec.toNat ?_
    rw [List.map_map]
    exact hkeys
  · have hfold := hreach.fold supply_advances (m := 0) fun _ => rfl
    rw [hfold, totalIssued, List.sum_eq_foldl, List.foldl_map]
  · intro past bytes rest pre t post tx hblocks hblock hdecode htype
    subst hblocks
    have hnone : tx.issuance issuanceReasonBlock = none := by simp [Transaction.issuance, htype]
    obtain ⟨before, after, hat⟩ := hreach.roundAt hblock hdecode (by simp [htype]) hnone
    exact ⟨before, after, hat, hat.conserved htype⟩

end

section Sample

attribute [local instance] Sample.primitives

open Sample

theorem sample_conserved : ∃ s, Accepts context history s ∧
    s.economy.state.totalSupply.toNat = s.economy.state.held ∧
    s.economy.state.totalSupply.toNat = totalIssued history := by
  obtain ⟨s, hs⟩ := accepts_history
  obtain ⟨-, -, hheld, hissued, -⟩ := economy_conserved hs
  exact ⟨s, hs, hheld, hissued⟩

end Sample

end StnChain
