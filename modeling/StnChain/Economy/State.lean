import StnChain.Economy.Issuance
import StnChain.Economy.Transfer

/-!
# The economic state

Balances sorted by wallet and a supply counter, changed by issuance records
and by transfers (`stn_economic_state.c`).  `EconomicState.Conserved` is the
invariant both changes keep: the balances are sorted, they fit their storage,
and the supply is their exact sum.  `economicStateApply_conserved` and
`economicStateApplyTransfer_conserved` say in addition what each change does to
the supply.
-/

namespace StnChain

/-- `stn_economic_balance`. -/
structure EconomicBalance where
  walletId : Octets 32
  units : UInt64
  deriving DecidableEq

/-- `stn_economic_state`. -/
structure EconomicState where
  balances : List EconomicBalance
  capacity : ℕ
  totalSupply : UInt64

/-- The key balances are sorted by. -/
def EconomicBalance.key (b : EconomicBalance) : ℕ :=
  b.walletId.toNat

/-- `UINT64_MAX`. -/
def uint64Max : UInt64 := 0xffffffffffffffff

/-- `stn_economic_state_initialize`. -/
def economicStateInitialize (capacity : ℕ) : EconomicState :=
  ⟨[], capacity, 0⟩

/-- `record_valid`. -/
def issuanceRecordValid (r : IssuanceRecord) : Except DataStatus Unit :=
  if r.destination.miningIdentity.type ≠ .identity ∨ r.destination.wallet.type ≠ .wallet then
    .error .type
  else if validAmount r.reason r.units then .ok ()
  else .error .content

/-- `stn_economic_state_apply`. -/
def economicStateApply (s : EconomicState) (r : IssuanceRecord) :
    Except DataStatus EconomicState :=
  match issuanceRecordValid r with
  | .error status => .error status
  | .ok () =>
      if s.balances.length > s.capacity then .error .argument
      else if uint64Max - s.totalSupply < r.units then .error .overflow
      else
        let wallet := r.destination.wallet.identifier
        let append :=
          if s.balances.length = s.capacity then .error .capacity
          else .ok { s with
            balances := SortedTable.insert EconomicBalance.key ⟨wallet, r.units⟩ s.balances
            totalSupply := s.totalSupply + r.units }
        match SortedTable.above EconomicBalance.key wallet.toNat s.balances with
        | [] => append
        | b :: _ =>
            if b.walletId = wallet then
              if uint64Max - b.units < r.units then .error .overflow
              else
                let position :=
                  (SortedTable.below EconomicBalance.key wallet.toNat s.balances).length
                .ok { s with
                  balances :=
                    s.balances.modify position fun b => { b with units := b.units + r.units }
                  totalSupply := s.totalSupply + r.units }
            else append

/-- The last index whose entry belongs to `wallet`, as the scan leaves it. -/
def walletIndex (wallet : Octets 32) : List EconomicBalance → Option ℕ
  | [] => none
  | b :: rest =>
      match walletIndex wallet rest with
      | some i => some (i + 1)
      | none => if b.walletId = wallet then some 0 else none

/-- The units held at an index of the balances. -/
def unitsAt (balances : List EconomicBalance) (i : ℕ) : UInt64 :=
  match balances[i]? with
  | some b => b.units
  | none => 0

/-- `stn_economic_state_apply_transfer`. -/
def economicStateApplyTransfer (s : EconomicState) (t : Transfer) :
    Except DataStatus EconomicState :=
  if t.source.type ≠ .wallet ∨ t.destination.type ≠ .wallet then .error .type
  else if t.units = 0 ∨ t.source.identifier = t.destination.identifier then .error .content
  else if s.balances.length > s.capacity then .error .argument
  else
    match walletIndex t.source.identifier s.balances with
    | none => .error .content
    | some sourceAt =>
        if unitsAt s.balances sourceAt < t.units then .error .content
        else
          let debited := s.balances.modify sourceAt fun b => { b with units := b.units - t.units }
          match walletIndex t.destination.identifier s.balances with
          | some destinationAt =>
              if uint64Max - unitsAt s.balances destinationAt < t.units then .error .overflow
              else .ok { s with
                balances := debited.modify destinationAt fun b =>
                  { b with units := b.units + t.units } }
          | none =>
              if s.balances.length = s.capacity then .error .capacity
              else .ok { s with
                balances := SortedTable.insert EconomicBalance.key
                  ⟨t.destination.identifier, t.units⟩ debited }

/-- `stn_economic_state_balance`: the units of a wallet, zero when absent. -/
def economicStateBalance (s : EconomicState) (wallet : Address) : Except DataStatus UInt64 :=
  if wallet.type ≠ .wallet then .error .type
  else if s.balances.length > s.capacity then .error .argument
  else
    match SortedTable.find EconomicBalance.key wallet.identifier.toNat s.balances with
    | some b => .ok b.units
    | none => .ok 0

/-! ## Conservation -/

/-- The exact sum of the units held. -/
def EconomicState.held (s : EconomicState) : ℕ :=
  SortedTable.total (fun b => b.units.toNat) s.balances

/-- The invariant of the economic state. -/
structure EconomicState.Conserved (s : EconomicState) : Prop where
  within : s.balances.length ≤ s.capacity
  sorted : SortedTable.Sorted EconomicBalance.key s.balances
  supply : s.totalSupply.toNat = s.held

/-- The overflow guard of the source excludes wrapping. -/
theorem toNat_add_of_guard {a b : UInt64} (h : ¬ uint64Max - a < b) :
    (a + b).toNat = a.toNat + b.toNat := by
  rw [uint64Max, UInt64.lt_iff_toNat_lt, UInt64.toNat_sub] at h
  have ha := a.toNat_lt
  have hb := b.toNat_lt
  simp at h ⊢
  omega

/-- What an accepted issuance does: it passes the supply guard, and either tops
up the entry of its wallet or inserts a new one. -/
theorem economicStateApply_cases {s s' : EconomicState} {r : IssuanceRecord}
    (h : economicStateApply s r = .ok s') :
    ¬ uint64Max - s.totalSupply < r.units ∧
      ((∃ b rest, SortedTable.above EconomicBalance.key
            r.destination.wallet.identifier.toNat s.balances = b :: rest ∧
          b.walletId = r.destination.wallet.identifier ∧
          ¬ uint64Max - b.units < r.units ∧
          s' = { s with
            balances := s.balances.modify
              (SortedTable.below EconomicBalance.key
                r.destination.wallet.identifier.toNat s.balances).length
              fun b => { b with units := b.units + r.units }
            totalSupply := s.totalSupply + r.units }) ∨
        (s.balances.length ≠ s.capacity ∧
          (∀ b rest, SortedTable.above EconomicBalance.key
              r.destination.wallet.identifier.toNat s.balances = b :: rest →
            b.key ≠ r.destination.wallet.identifier.toNat) ∧
          s' = { s with
            balances := SortedTable.insert EconomicBalance.key
              ⟨r.destination.wallet.identifier, r.units⟩ s.balances
            totalSupply := s.totalSupply + r.units })) := by
  simp only [economicStateApply] at h
  split at h
  · simp at h
  split at h
  · simp at h
  split at h
  · simp at h
  next hsupply =>
  refine ⟨hsupply, ?_⟩
  split at h
  · next hnil =>
      split at h
      · simp at h
      · next hroom => exact .inr ⟨hroom, by simp [hnil], (Except.ok.inj h).symm⟩
  · next b rest hcons =>
      split at h
      · next hwallet =>
          split at h
          · simp at h
          · next hguard => exact .inl ⟨b, rest, hcons, hwallet, hguard, (Except.ok.inj h).symm⟩
      · next hwallet =>
          split at h
          · simp at h
          · next hroom =>
              refine .inr ⟨hroom, ?_, (Except.ok.inj h).symm⟩
              intro b' rest' hcons'
              obtain ⟨rfl, rfl⟩ : b = b' ∧ rest = rest' := by simpa [hcons] using hcons'
              exact fun hkey => hwallet (BitVec.eq_of_toNat_eq hkey)

/-- An accepted issuance conserves and raises the supply by its units. -/
theorem economicStateApply_conserved {s s' : EconomicState} {r : IssuanceRecord}
    (hs : s.Conserved) (h : economicStateApply s r = .ok s') :
    s'.Conserved ∧ s'.totalSupply.toNat = s.totalSupply.toNat + r.units.toNat := by
  obtain ⟨hsupply, hcase⟩ := economicStateApply_cases h
  have hadd := toNat_add_of_guard hsupply
  rcases hcase with ⟨b, rest, hcons, -, hguard, rfl⟩ | ⟨hroom, hnew, rfl⟩
  · refine ⟨⟨by simpa using hs.within, hs.sorted.modify fun _ => rfl, ?_⟩, hadd⟩
    have htotal := SortedTable.total_modify (fun b : EconomicBalance => b.units.toNat)
      (fun b => { b with units := b.units + r.units })
      (SortedTable.getElem?_length_below hcons)
    have hunits := toNat_add_of_guard hguard
    have hheld := hs.supply
    simp only [EconomicState.held] at hheld htotal ⊢
    omega
  · have hlen := hs.within
    refine ⟨⟨?_, hs.sorted.insert hnew, ?_⟩, hadd⟩
    · simp only [SortedTable.length_insert]
      omega
    have htotal : SortedTable.total (fun b : EconomicBalance => b.units.toNat)
        (SortedTable.insert EconomicBalance.key ⟨r.destination.wallet.identifier, r.units⟩
          s.balances) = SortedTable.total (fun b => b.units.toNat) s.balances + r.units.toNat :=
      SortedTable.total_insert _ _
    have hheld := hs.supply
    simp only [EconomicState.held] at hheld htotal ⊢
    omega

theorem walletIndex_eq_some {wallet : Octets 32} {balances : List EconomicBalance} {i : ℕ}
    (h : walletIndex wallet balances = some i) :
    ∃ b, balances[i]? = some b ∧ b.walletId = wallet := by
  induction balances generalizing i with
  | nil => simp [walletIndex] at h
  | cons b rest ih =>
      simp only [walletIndex] at h
      split at h
      · next j hj =>
          obtain rfl := Option.some.inj h
          simpa using ih hj
      · split at h
        · next hwallet =>
            obtain rfl := Option.some.inj h
            exact ⟨b, rfl, hwallet⟩
        · simp at h

theorem walletIndex_eq_none {wallet : Octets 32} {balances : List EconomicBalance}
    (h : walletIndex wallet balances = none) : ∀ b ∈ balances, b.walletId ≠ wallet := by
  induction balances with
  | nil => simp
  | cons b rest ih =>
      simp only [walletIndex] at h
      split at h
      · simp at h
      · next hrest =>
          split at h
          · simp at h
          · next hwallet => exact List.forall_mem_cons.mpr ⟨hwallet, ih hrest⟩

/-- Debiting an entry that holds enough lowers the sum by the amount. -/
theorem total_debit {balances : List EconomicBalance} {i : ℕ} {units : UInt64}
    {b : EconomicBalance} (hb : balances[i]? = some b) (henough : ¬ b.units < units) :
    SortedTable.total (fun b => b.units.toNat)
        (balances.modify i fun b => { b with units := b.units - units }) + units.toNat =
      SortedTable.total (fun b => b.units.toNat) balances := by
  have htotal := SortedTable.total_modify (fun b : EconomicBalance => b.units.toNat)
    (fun b => { b with units := b.units - units }) hb
  have hle := UInt64.not_lt.mp henough
  have hsub := UInt64.toNat_sub_of_le _ _ hle
  have hnat := UInt64.le_iff_toNat_le.mp hle
  dsimp only at htotal
  omega

/-- What an accepted transfer does: it debits the entry of its source, and either
credits an entry of its destination or inserts one. -/
theorem economicStateApplyTransfer_cases {s s' : EconomicState} {t : Transfer}
    (h : economicStateApplyTransfer s t = .ok s') :
    t.source.identifier ≠ t.destination.identifier ∧
      ∃ i, walletIndex t.source.identifier s.balances = some i ∧
        ¬ unitsAt s.balances i < t.units ∧
        ((∃ j, walletIndex t.destination.identifier s.balances = some j ∧
            ¬ uint64Max - unitsAt s.balances j < t.units ∧
            s' = { s with
              balances :=
                (s.balances.modify i fun b => { b with units := b.units - t.units }).modify j
                  fun b => { b with units := b.units + t.units } }) ∨
          (walletIndex t.destination.identifier s.balances = none ∧
            s.balances.length ≠ s.capacity ∧
            s' = { s with
              balances := SortedTable.insert EconomicBalance.key ⟨t.destination.identifier, t.units⟩
                (s.balances.modify i fun b => { b with units := b.units - t.units }) })) := by
  simp only [economicStateApplyTransfer] at h
  split at h
  · simp at h
  split at h
  · simp at h
  next hdistinct =>
  split at h
  · simp at h
  split at h
  · simp at h
  next i hsource =>
  split at h
  · simp at h
  next henough =>
  refine ⟨fun heq => hdistinct (.inr heq), i, hsource, henough, ?_⟩
  split at h
  · next j hdestination =>
      split at h
      · simp at h
      · next hguard => exact .inl ⟨j, hdestination, hguard, (Except.ok.inj h).symm⟩
  · next hdestination =>
      split at h
      · simp at h
      · next hroom => exact .inr ⟨hdestination, hroom, (Except.ok.inj h).symm⟩

/-- An accepted transfer conserves and leaves the supply as it is. -/
theorem economicStateApplyTransfer_conserved {s s' : EconomicState} {t : Transfer}
    (hs : s.Conserved) (h : economicStateApplyTransfer s t = .ok s') :
    s'.Conserved ∧ s'.totalSupply = s.totalSupply := by
  obtain ⟨hdistinct, i, hsource, henough, hcase⟩ := economicStateApplyTransfer_cases h
  obtain ⟨a, ha, hawallet⟩ := walletIndex_eq_some hsource
  have hdebit := total_debit ha (by simpa [unitsAt, ha] using henough)
  have hsorted : SortedTable.Sorted EconomicBalance.key
      (s.balances.modify i fun b => { b with units := b.units - t.units }) :=
    hs.sorted.modify fun _ => rfl
  have hheld := hs.supply
  rcases hcase with ⟨j, hdestination, hguard, rfl⟩ | ⟨hnone, hroom, rfl⟩
  · obtain ⟨b, hb, hbwallet⟩ := walletIndex_eq_some hdestination
    -- The credited entry is another one than the debited entry, so it still holds `b.units`.
    have hij : i ≠ j := by
      rintro rfl
      obtain rfl : a = b := Option.some.inj (ha.symm.trans hb)
      exact hdistinct (hawallet.symm.trans hbwallet)
    have hb' : (s.balances.modify i fun b => { b with units := b.units - t.units })[j]? =
        some b := by
      simp [hij, hb]
    have hcredit := SortedTable.total_modify (fun b : EconomicBalance => b.units.toNat)
      (fun b => { b with units := b.units + t.units }) hb'
    have hunits := toNat_add_of_guard (by simpa [unitsAt, hb] using hguard)
    refine ⟨⟨by simpa using hs.within, hsorted.modify fun _ => rfl, ?_⟩, rfl⟩
    simp only [EconomicState.held] at hheld hcredit ⊢
    omega
  · have hnew : ∀ b rest, SortedTable.above EconomicBalance.key t.destination.identifier.toNat
        (s.balances.modify i fun b => { b with units := b.units - t.units }) = b :: rest →
        b.key ≠ t.destination.identifier.toNat := by
      intro b rest hcons hkey
      have hmem : b ∈ s.balances.modify i fun b => { b with units := b.units - t.units } :=
        (List.dropWhile_sublist _).subset (hcons ▸ List.mem_cons_self)
      have hkeys : b.key ∈ s.balances.map EconomicBalance.key := by
        rw [← SortedTable.map_key_modify (i := i)
          (f := fun b : EconomicBalance => { b with units := b.units - t.units }) fun _ => rfl]
        exact List.mem_map_of_mem hmem
      obtain ⟨c, hc, hckey⟩ := List.mem_map.mp hkeys
      exact walletIndex_eq_none hnone c hc (BitVec.eq_of_toNat_eq (hckey.trans hkey))
    have hinsert : SortedTable.total (fun b : EconomicBalance => b.units.toNat)
        (SortedTable.insert EconomicBalance.key ⟨t.destination.identifier, t.units⟩
          (s.balances.modify i fun b => { b with units := b.units - t.units })) =
        SortedTable.total (fun b => b.units.toNat)
          (s.balances.modify i fun b => { b with units := b.units - t.units }) + t.units.toNat :=
      SortedTable.total_insert _ _
    have hlen := hs.within
    refine ⟨⟨?_, hsorted.insert hnew, ?_⟩, rfl⟩
    · simp only [SortedTable.length_insert, List.length_modify]
      omega
    · simp only [EconomicState.held] at hheld hinsert ⊢
      omega

/-! ## Envelope acceptance -/

/-- `stn_transfer_envelope_accept`.  The source changes the economy before the
replay set; a caller drops both when the status is not a success. -/
def transferEnvelopeAccept [Primitives] (economy : EconomicState)
    (replay : TransferEnvelopeReplayState) (e : TransferEnvelope) :
    Except DataStatus (EconomicState × TransferEnvelopeReplayState) :=
  match transferEnvelopeAuthorizationVerify e with
  | .error status => .error status
  | .ok () =>
      match transferEnvelopeReplayCheck replay e with
      | .duplicate => .error .duplicate
      | .argument => .error .argument
      | .capacity => .error .content
      | .fresh =>
          if replay.consumed.length = replay.capacity then .error .capacity
          else
            match economicStateApplyTransfer economy e.transfer with
            | .error status => .error status
            | .ok economy =>
                match transferEnvelopeReplayConsume replay e with
                | (.fresh, replay) => .ok (economy, replay)
                | _ => .error .argument

/-- What an accepted envelope establishes. -/
theorem transferEnvelopeAccept_eq_ok [Primitives] {economy economy' : EconomicState}
    {replay replay' : TransferEnvelopeReplayState} {e : TransferEnvelope}
    (h : transferEnvelopeAccept economy replay e = .ok (economy', replay')) :
    transferEnvelopeAuthorizationVerify e = .ok () ∧
      economicStateApplyTransfer economy e.transfer = .ok economy' ∧
      transferEnvelopeReplayConsume replay e = (.fresh, replay') := by
  simp only [transferEnvelopeAccept] at h
  split at h
  · simp at h
  next hverify =>
  split at h
  · simp at h
  · simp at h
  · simp at h
  split at h
  · simp at h
  split at h
  · simp at h
  next heconomy =>
  split at h
  · next hconsume =>
      obtain ⟨rfl, rfl⟩ := Prod.mk.inj (Except.ok.inj h)
      exact ⟨hverify, heconomy, hconsume⟩
  · simp at h

end StnChain
