import StnChain.Economy.BlockCompensation
import StnChain.Support.Slots

/-!
# Joint acceptance in place

A transfer envelope and block-compensation evidence each change the balances and a replay
set, in storage their caller owns (`stn_transfer_envelope_acceptance.c`,
`stn_block_compensation_acceptance.c`).  Here the operations are followed write by write:
an operation that fails keeps whatever it has written.  `acceptance_atomic` says that it
has written nothing: no check is left to fail once the first store has changed.
-/

namespace StnChain

/-! ## The stores -/

/-- `stn_economic_state` with the storage of its balances. -/
structure BalanceStore where
  table : Slots EconomicBalance
  totalSupply : UInt64

/-- What a balance store holds. -/
def BalanceStore.state (s : BalanceStore) : EconomicState :=
  ⟨s.table.entries, s.table.cells.length, s.totalSupply⟩

/-- What the storage of a transfer replay set holds. -/
def transferReplayState (s : Slots ReplayId) : TransferEnvelopeReplayState :=
  ⟨s.entries, s.cells.length⟩

/-- What the storage of a block-compensation replay set holds. -/
def blockReplayState (s : Slots (Octets 32)) : BlockCompensationReplay :=
  ⟨s.entries⟩

/-- `stn_economic_state_apply`. -/
def economicStateApplyAt (s : BalanceStore) (r : IssuanceRecord) :
    Except DataStatus Unit × BalanceStore :=
  match issuanceRecordValid r with
  | .error status => (.error status, s)
  | .ok () =>
      if s.table.count > s.table.cells.length then (.error .argument, s)
      else if uint64Max - s.totalSupply < r.units then (.error .overflow, s)
      else
        let wallet := r.destination.wallet.identifier
        let position :=
          (SortedTable.below EconomicBalance.key wallet.toNat s.table.entries).length
        let append :=
          if s.table.count = s.table.cells.length then (.error .capacity, s)
          else (.ok (), ⟨s.table.insertAt position ⟨wallet, r.units⟩, s.totalSupply + r.units⟩)
        match s.table.entries[position]? with
        | none => append
        | some b =>
            if b.walletId = wallet then
              if uint64Max - b.units < r.units then (.error .overflow, s)
              else (.ok (), ⟨s.table.modifyAt position
                  fun b => { b with units := b.units + r.units }, s.totalSupply + r.units⟩)
            else append

/-- `stn_economic_state_apply_transfer`: the source is debited before the destination is
credited or inserted. -/
def economicStateApplyTransferAt (s : BalanceStore) (t : Transfer) :
    Except DataStatus Unit × BalanceStore :=
  if t.source.type ≠ .wallet ∨ t.destination.type ≠ .wallet then (.error .type, s)
  else if t.units = 0 ∨ t.source.identifier = t.destination.identifier then (.error .content, s)
  else if s.table.count > s.table.cells.length then (.error .argument, s)
  else
    match walletIndex t.source.identifier s.table.entries with
    | none => (.error .content, s)
    | some sourceAt =>
        if unitsAt s.table.entries sourceAt < t.units then (.error .content, s)
        else
          match walletIndex t.destination.identifier s.table.entries with
          | some destinationAt =>
              if uint64Max - unitsAt s.table.entries destinationAt < t.units then
                (.error .overflow, s)
              else
                let debited := s.table.modifyAt sourceAt fun b =>
                  { b with units := b.units - t.units }
                (.ok (), { s with table := debited.modifyAt destinationAt fun b =>
                  { b with units := b.units + t.units } })
          | none =>
              if s.table.count = s.table.cells.length then (.error .capacity, s)
              else
                let destinationAt := (SortedTable.below EconomicBalance.key
                  t.destination.identifier.toNat s.table.entries).length
                let debited := s.table.modifyAt sourceAt fun b =>
                  { b with units := b.units - t.units }
                (.ok (), { s with table :=
                  debited.insertAt destinationAt ⟨t.destination.identifier, t.units⟩ })

/-- `stn_transfer_envelope_replay_check`. -/
def transferEnvelopeReplayCheckAt (s : Slots ReplayId) (e : TransferEnvelope) :
    TransferEnvelopeReplayResult :=
  if s.count > s.cells.length then .argument
  else
    match transferEnvelopeReplayKey e with
    | none => .argument
    | some key => if key ∈ s.entries then .duplicate else .fresh

/-- `stn_transfer_envelope_replay_consume`. -/
def transferEnvelopeReplayConsumeAt (s : Slots ReplayId) (e : TransferEnvelope) :
    TransferEnvelopeReplayResult × Slots ReplayId :=
  if s.count > s.cells.length then (.argument, s)
  else
    match transferEnvelopeReplayKey e with
    | none => (.argument, s)
    | some key =>
        match transferEnvelopeReplayCheckAt s e with
        | .fresh => if s.count = s.cells.length then (.capacity, s) else (.fresh, s.push key)
        | result => (result, s)

/-- The stores a transfer envelope changes. -/
structure TransferStores where
  economy : BalanceStore
  replay : Slots ReplayId

/-- `stn_transfer_envelope_accept`. -/
def transferEnvelopeAcceptAt [Primitives] (s : TransferStores) (e : TransferEnvelope) :
    Except DataStatus Unit × TransferStores :=
  match transferEnvelopeAuthorizationVerify e with
  | .error status => (.error status, s)
  | .ok () =>
      match transferEnvelopeReplayCheckAt s.replay e with
      | .duplicate => (.error .duplicate, s)
      | .argument => (.error .argument, s)
      | .capacity => (.error .content, s)
      | .fresh =>
          if s.replay.count = s.replay.cells.length then (.error .capacity, s)
          else
            match economicStateApplyTransferAt s.economy e.transfer with
            | (.error status, economy) => (.error status, { s with economy })
            | (.ok (), economy) =>
                match transferEnvelopeReplayConsumeAt s.replay e with
                | (.fresh, replay) => (.ok (), ⟨economy, replay⟩)
                | (_, replay) => (.error .argument, ⟨economy, replay⟩)

/-- `stn_block_compensation_replay_copy`: the copy, or why the source is not one. -/
def blockCompensationReplayCopyAt (source : Slots (Octets 32)) :
    Except DataStatus (Slots (Octets 32)) :=
  if source.count > blockCompensationReplayCapacity then .error .content
  else if (0 : Octets 32) ∈ source.entries then .error .content
  else .ok source

/-- `stn_block_compensation_replay_consume`. -/
def blockCompensationReplayConsumeAt (s : Slots (Octets 32)) (evidenceId : Octets 32) :
    Except DataStatus Unit × Slots (Octets 32) :=
  if s.count > blockCompensationReplayCapacity then (.error .content, s)
  else if evidenceId = 0 then (.error .content, s)
  else
    match blockCompensationReplayScan evidenceId s.entries with
    | .error status => (.error status, s)
    | .ok () =>
        if s.count ≥ blockCompensationReplayCapacity then (.error .capacity, s)
        else (.ok (), s.push evidenceId)

/-- `stn_block_compensation_replay_consume_evidence`. -/
def blockCompensationReplayConsumeEvidenceAt [Primitives] (s : Slots (Octets 32))
    (e : BlockCompensationEvidence) : Except DataStatus Unit × Slots (Octets 32) :=
  match blockCompensationId e with
  | .error status => (.error status, s)
  | .ok evidenceId => blockCompensationReplayConsumeAt s evidenceId

/-- The stores block-compensation evidence changes. -/
structure CompensationStores where
  economy : BalanceStore
  replay : Slots (Octets 32)

/-- `stn_block_compensation_accept`.  `storage` is what the allocation of the scratch
balances returned, `none` when it failed; the balances are changed in the scratch and
copied back. -/
def blockCompensationAcceptAt [Primitives] (s : CompensationStores)
    (e : BlockCompensationEvidence) (issuance : IssuanceRecord)
    (compensation : CompensationState) (storage : Option (List EconomicBalance)) :
    Except DataStatus Unit × CompensationStores :=
  if s.economy.table.count > s.economy.table.cells.length then (.error .content, s)
  else
    match issuanceBindBlock issuance e compensation with
    | .error status => (.error status, s)
    | .ok () =>
        match blockCompensationReplayCopyAt s.replay with
        | .error status => (.error status, s)
        | .ok copy =>
            match blockCompensationReplayConsumeEvidenceAt copy e with
            | (.error status, _) => (.error status, s)
            | (.ok (), nextReplay) =>
                if s.economy.table.cells.length ≠ 0 then
                  match storage with
                  | none => (.error .capacity, s)
                  | some cells =>
                      let scratch : Slots EconomicBalance := ⟨cells, s.economy.table.count⟩
                      match economicStateApplyAt
                          ⟨scratch.copyFrom s.economy.table, s.economy.totalSupply⟩ issuance with
                      | (.error status, _) => (.error status, s)
                      | (.ok (), next) =>
                          let balances := (s.economy.table.copyFrom next.table).cells
                          (.ok (), ⟨⟨⟨balances, next.table.count⟩, next.totalSupply⟩, nextReplay⟩)
                else
                  -- No storage is allocated: the copy of the state shares its balances.
                  match economicStateApplyAt s.economy issuance with
                  | (.error status, next) =>
                      (.error status, { s with economy := { s.economy with
                        table := { s.economy.table with cells := next.table.cells } } })
                  | (.ok (), next) => (.ok (), ⟨next, nextReplay⟩)

/-! ## The balances -/

section Balances

variable {s : BalanceStore}

theorem BalanceStore.within (h : s.table.Fits) : ¬s.table.count > s.table.cells.length :=
  Nat.not_lt.mpr h

/-- What an operation on the balances keeps of their storage. -/
structure KeepsStorage (s s' : BalanceStore) : Prop where
  fits : s'.table.Fits
  length : s'.table.cells.length = s.table.cells.length

theorem KeepsStorage.refl (h : s.table.Fits) : KeepsStorage s s :=
  ⟨h, rfl⟩

theorem KeepsStorage.insertAt {i : ℕ} {b : EconomicBalance} {supply : UInt64}
    (hroom : s.table.count < s.table.cells.length) (hi : i ≤ s.table.count) :
    KeepsStorage s ⟨s.table.insertAt i b, supply⟩ := by
  have hlength := Slots.length_insertAt (a := b) hroom hi
  refine ⟨?_, hlength⟩
  rw [Slots.Fits, hlength]
  exact hroom

theorem KeepsStorage.modifyAt {i : ℕ} {f : EconomicBalance → EconomicBalance} {supply : UInt64}
    (h : s.table.Fits) : KeepsStorage s ⟨s.table.modifyAt i f, supply⟩ :=
  ⟨h.modifyAt, Slots.length_modifyAt⟩

/-- Inserting a balance at the place where the scan for its wallet stops. -/
theorem BalanceStore.state_insertAt (hroom : s.table.count < s.table.cells.length)
    (b : EconomicBalance) (supply : UInt64) :
    (BalanceStore.mk (s.table.insertAt
        (SortedTable.below EconomicBalance.key b.key s.table.entries).length b) supply).state =
      ⟨SortedTable.insert EconomicBalance.key b s.table.entries, s.table.cells.length, supply⟩ := by
  have hlength : s.table.entries.length = s.table.count := Slots.length_entries (Nat.le_of_lt hroom)
  have hle : (SortedTable.below EconomicBalance.key b.key s.table.entries).length ≤
      s.table.count := by
    rw [← hlength]
    exact SortedTable.length_below_le
  rw [BalanceStore.state, Slots.entries_insertAt hroom hle, Slots.length_insertAt hroom hle,
    SortedTable.insert_eq_take_drop]

/-- A new balance goes where the scan stops, unless the table is full. -/
theorem appendBalance_performs (h : s.table.Fits) (b : EconomicBalance) (supply : UInt64) :
    let outcome : Except DataStatus Unit × BalanceStore :=
      if s.table.count = s.table.cells.length then (.error .capacity, s)
      else (.ok (), ⟨s.table.insertAt
        (SortedTable.below EconomicBalance.key b.key s.table.entries).length b, supply⟩)
    Performs BalanceStore.state s
      (if s.table.entries.length = s.table.cells.length then .error .capacity
        else .ok ⟨SortedTable.insert EconomicBalance.key b s.table.entries,
          s.table.cells.length, supply⟩) outcome ∧ KeepsStorage s outcome.2 := by
  have hlength : s.table.entries.length = s.table.count := Slots.length_entries h
  rw [hlength]
  by_cases hfull : s.table.count = s.table.cells.length
  · simp only [if_pos hfull]
    exact ⟨⟨rfl, rfl⟩, .refl h⟩
  · have hroom : s.table.count < s.table.cells.length := Nat.lt_of_le_of_ne h hfull
    simp only [if_neg hfull]
    refine ⟨congrArg Except.ok (BalanceStore.state_insertAt hroom _ _).symm, .insertAt hroom ?_⟩
    rw [← hlength]
    exact SortedTable.length_below_le

/-- In place an issuance does what it does to the balances held. -/
theorem economicStateApplyAt_performs (h : s.table.Fits) (r : IssuanceRecord) :
    Performs BalanceStore.state s (economicStateApply s.state r) (economicStateApplyAt s r) ∧
      KeepsStorage s (economicStateApplyAt s r).2 := by
  have hlength : s.table.entries.length = s.table.count := Slots.length_entries h
  have hpure : ¬s.table.entries.length > s.table.cells.length := by
    rw [hlength]
    exact BalanceStore.within h
  have hstate : s.state = ⟨s.table.entries, s.table.cells.length, s.totalSupply⟩ := rfl
  simp only [economicStateApplyAt, economicStateApply, hstate, if_neg hpure,
    if_neg (BalanceStore.within h), SortedTable.getElem?_stop]
  cases issuanceRecordValid r with
  | error status => exact ⟨⟨rfl, rfl⟩, .refl h⟩
  | ok u =>
      dsimp only
      by_cases hsupply : uint64Max - s.totalSupply < r.units
      · rw [if_pos hsupply, if_pos hsupply]
        exact ⟨⟨rfl, rfl⟩, .refl h⟩
      rw [if_neg hsupply, if_neg hsupply]
      have happend := appendBalance_performs h ⟨r.destination.wallet.identifier, r.units⟩
        (s.totalSupply + r.units)
      cases SortedTable.above EconomicBalance.key r.destination.wallet.identifier.toNat
          s.table.entries with
      | nil => exact happend
      | cons b rest =>
          dsimp only [List.head?_cons]
          by_cases hwallet : b.walletId = r.destination.wallet.identifier
          · rw [if_pos hwallet, if_pos hwallet]
            by_cases hunits : uint64Max - b.units < r.units
            · rw [if_pos hunits, if_pos hunits]
              exact ⟨⟨rfl, rfl⟩, .refl h⟩
            · rw [if_neg hunits, if_neg hunits]
              refine ⟨?_, .modifyAt h⟩
              simp only [Performs, BalanceStore.state, Slots.entries_modifyAt,
                Slots.length_modifyAt]
          · rw [if_neg hwallet, if_neg hwallet]
            exact happend

/-- In place a transfer does what it does to the balances held. -/
theorem economicStateApplyTransferAt_performs (h : s.table.Fits) (t : Transfer) :
    Performs BalanceStore.state s (economicStateApplyTransfer s.state t)
      (economicStateApplyTransferAt s t) := by
  have hlength : s.table.entries.length = s.table.count := Slots.length_entries h
  have hpure : ¬s.table.entries.length > s.table.cells.length := by
    rw [hlength]
    exact BalanceStore.within h
  have hstate : s.state = ⟨s.table.entries, s.table.cells.length, s.totalSupply⟩ := rfl
  simp only [economicStateApplyTransferAt, economicStateApplyTransfer, hstate, if_neg hpure,
    if_neg (BalanceStore.within h)]
  by_cases htype : t.source.type ≠ .wallet ∨ t.destination.type ≠ .wallet
  · rw [if_pos htype, if_pos htype]
    exact ⟨rfl, rfl⟩
  rw [if_neg htype, if_neg htype]
  by_cases hcontent : t.units = 0 ∨ t.source.identifier = t.destination.identifier
  · rw [if_pos hcontent, if_pos hcontent]
    exact ⟨rfl, rfl⟩
  rw [if_neg hcontent, if_neg hcontent]
  cases walletIndex t.source.identifier s.table.entries with
  | none => exact ⟨rfl, rfl⟩
  | some sourceAt =>
      dsimp only
      by_cases hunits : unitsAt s.table.entries sourceAt < t.units
      · rw [if_pos hunits, if_pos hunits]
        exact ⟨rfl, rfl⟩
      rw [if_neg hunits, if_neg hunits]
      cases walletIndex t.destination.identifier s.table.entries with
      | some destinationAt =>
          dsimp only
          by_cases hover : uint64Max - unitsAt s.table.entries destinationAt < t.units
          · rw [if_pos hover, if_pos hover]
            exact ⟨rfl, rfl⟩
          · rw [if_neg hover, if_neg hover]
            simp only [Performs, BalanceStore.state, Slots.entries_modifyAt,
              Slots.length_modifyAt]
      | none =>
          dsimp only
          rw [hlength]
          by_cases hfull : s.table.count = s.table.cells.length
          · rw [if_pos hfull, if_pos hfull]
            exact ⟨rfl, rfl⟩
          -- The debit changes no wallet, so the place found before it is the place after it.
          have hroom : s.table.count < s.table.cells.length := Nat.lt_of_le_of_ne h hfull
          have hplace : (SortedTable.below EconomicBalance.key t.destination.identifier.toNat
              (s.table.entries.modify sourceAt fun b =>
                { b with units := b.units - t.units })).length =
              (SortedTable.below EconomicBalance.key t.destination.identifier.toNat
                s.table.entries).length :=
            SortedTable.length_below_modify fun _ => rfl
          have hinsert := BalanceStore.state_insertAt
            (s := ⟨s.table.modifyAt sourceAt fun b => { b with units := b.units - t.units },
              s.totalSupply⟩)
            (by rw [Slots.length_modifyAt]; exact hroom) ⟨t.destination.identifier, t.units⟩
            s.totalSupply
          simp only [Slots.entries_modifyAt, Slots.length_modifyAt, EconomicBalance.key,
            hplace] at hinsert
          rw [if_neg hfull, if_neg hfull]
          exact congrArg Except.ok hinsert.symm

end Balances

/-! ## The replay sets -/

section Replay

theorem transferEnvelopeReplayCheckAt_eq {s : Slots ReplayId} (h : s.Fits)
    (e : TransferEnvelope) :
    transferEnvelopeReplayCheckAt s e = transferEnvelopeReplayCheck (transferReplayState s) e := by
  have hlength : s.entries.length = s.count := Slots.length_entries h
  have hpure : ¬s.entries.length > s.cells.length := by
    rw [hlength]
    exact Nat.not_lt.mpr h
  exact (if_neg (Nat.not_lt.mpr h)).trans (if_neg hpure).symm

/-- Consuming in place consumes what is held, or changes nothing. -/
theorem transferEnvelopeReplayConsumeAt_eq {s : Slots ReplayId} (h : s.Fits)
    (e : TransferEnvelope) :
    transferEnvelopeReplayConsume (transferReplayState s) e =
      (transferEnvelopeReplayConsumeAt s e).map id transferReplayState := by
  have hlength : s.entries.length = s.count := Slots.length_entries h
  simp only [transferEnvelopeReplayConsume, transferEnvelopeReplayConsumeAt,
    transferEnvelopeReplayCheckAt_eq h]
  have hstate : transferReplayState s = ⟨s.entries, s.cells.length⟩ := rfl
  simp only [hstate, hlength]
  by_cases hover : s.count > s.cells.length
  · exact absurd hover (Nat.not_lt.mpr h)
  simp only [if_neg hover]
  cases transferEnvelopeReplayKey e with
  | none => rfl
  | some key =>
      cases transferEnvelopeReplayCheck ⟨s.entries, s.cells.length⟩ e with
      | duplicate => rfl
      | capacity => rfl
      | argument => rfl
      | fresh =>
          by_cases hfull : s.count = s.cells.length
          · simp only [if_pos hfull]
            rfl
          · have hroom : s.count < s.cells.length := Nat.lt_of_le_of_ne h hfull
            simp only [if_neg hfull, Prod.map, transferReplayState, Slots.entries_push hroom,
              Slots.length_push hroom, id]

/-- A consumption that follows a successful check finds room for its key. -/
theorem transferEnvelopeReplayConsumeAt_of_fresh {s : Slots ReplayId} {e : TransferEnvelope}
    (hfresh : transferEnvelopeReplayCheckAt s e = .fresh) (hroom : s.count ≠ s.cells.length) :
    ∃ key, transferEnvelopeReplayConsumeAt s e = (.fresh, s.push key) := by
  have hcheck := hfresh
  simp only [transferEnvelopeReplayCheckAt] at hcheck
  split at hcheck
  · cases hcheck
  next hwithin =>
  split at hcheck
  · cases hcheck
  next key hkey =>
    exact ⟨key, by simp only [transferEnvelopeReplayConsumeAt, if_neg hwithin, hkey, hfresh,
      if_neg hroom]⟩

/-- The array of a block-compensation replay set has the length of its type. -/
structure BlockReplayStored (s : Slots (Octets 32)) : Prop where
  fits : s.Fits
  length : s.cells.length = blockCompensationReplayCapacity

theorem blockCompensationReplayConsumeAt_performs {s : Slots (Octets 32)}
    (h : BlockReplayStored s) (evidenceId : Octets 32) :
    Performs blockReplayState s (blockCompensationReplayConsume (blockReplayState s) evidenceId)
      (blockCompensationReplayConsumeAt s evidenceId) := by
  have hlength : s.entries.length = s.count := Slots.length_entries h.fits
  have hstate : blockReplayState s = ⟨s.entries⟩ := rfl
  simp only [blockCompensationReplayConsume, blockCompensationReplayConsumeAt, hstate, hlength]
  by_cases hover : s.count > blockCompensationReplayCapacity
  · rw [if_pos hover, if_pos hover]
    exact ⟨rfl, rfl⟩
  rw [if_neg hover, if_neg hover]
  by_cases hzero : evidenceId = 0
  · rw [if_pos hzero, if_pos hzero]
    exact ⟨rfl, rfl⟩
  rw [if_neg hzero, if_neg hzero]
  cases blockCompensationReplayScan evidenceId s.entries with
  | error status => exact ⟨rfl, rfl⟩
  | ok u =>
      dsimp only
      by_cases hfull : s.count ≥ blockCompensationReplayCapacity
      · rw [if_pos hfull, if_pos hfull]
        exact ⟨rfl, rfl⟩
      · have hroom : s.count < s.cells.length := by
          rw [h.length]
          exact Nat.lt_of_not_ge hfull
        rw [if_neg hfull, if_neg hfull]
        simp only [Performs, blockReplayState, Slots.entries_push hroom]

theorem blockCompensationReplayConsumeEvidenceAt_performs [Primitives] {s : Slots (Octets 32)}
    (h : BlockReplayStored s) (e : BlockCompensationEvidence) :
    Performs blockReplayState s (blockCompensationReplayConsumeEvidence (blockReplayState s) e)
      (blockCompensationReplayConsumeEvidenceAt s e) := by
  simp only [blockCompensationReplayConsumeEvidence, blockCompensationReplayConsumeEvidenceAt]
  cases blockCompensationId e with
  | error status => exact ⟨rfl, rfl⟩
  | ok evidenceId => exact blockCompensationReplayConsumeAt_performs h evidenceId

/-- A copy that is made is the source, and holds what the copy of its contents does. -/
theorem blockCompensationReplayCopyAt_cases {s : Slots (Octets 32)} (h : s.Fits) :
    (blockCompensationReplayCopyAt s = .ok s ∧
        blockCompensationReplayCopy (blockReplayState s) = .ok (blockReplayState s)) ∨
      ∃ status, blockCompensationReplayCopyAt s = .error status ∧
        blockCompensationReplayCopy (blockReplayState s) = .error status := by
  have hlength : s.entries.length = s.count := Slots.length_entries h
  have hstate : blockReplayState s = ⟨s.entries⟩ := rfl
  simp only [blockCompensationReplayCopyAt, blockCompensationReplayCopy, hstate, hlength]
  by_cases hover : s.count > blockCompensationReplayCapacity
  · rw [if_pos hover, if_pos hover]
    exact .inr ⟨_, rfl, rfl⟩
  rw [if_neg hover, if_neg hover]
  by_cases hzero : (0 : Octets 32) ∈ s.entries
  · rw [if_pos hzero, if_pos hzero]
    exact .inr ⟨_, rfl, rfl⟩
  · rw [if_neg hzero, if_neg hzero]
    exact .inl ⟨rfl, rfl⟩

end Replay

/-! ## Joint acceptance -/

section Joint

variable [Primitives]

/-- What the stores of a transfer hold. -/
def TransferStores.view (s : TransferStores) : EconomicState × TransferEnvelopeReplayState :=
  (s.economy.state, transferReplayState s.replay)

/-- What the stores of block compensation hold. -/
def CompensationStores.view (s : CompensationStores) : BlockCompensationReplay × EconomicState :=
  (blockReplayState s.replay, s.economy.state)

/-- The replay set is consumed last, and by then nothing of it can fail. -/
theorem transferEnvelopeAcceptAt_performs {s : TransferStores} (heconomy : s.economy.table.Fits)
    (hreplay : s.replay.Fits) (e : TransferEnvelope) :
    Performs TransferStores.view s
      (transferEnvelopeAccept s.economy.state (transferReplayState s.replay) e)
      (transferEnvelopeAcceptAt s e) := by
  have hlength : (transferReplayState s.replay).consumed.length = s.replay.count :=
    Slots.length_entries hreplay
  have hcapacity : (transferReplayState s.replay).capacity = s.replay.cells.length := rfl
  simp only [transferEnvelopeAccept, transferEnvelopeAcceptAt,
    ← transferEnvelopeReplayCheckAt_eq hreplay, hlength, hcapacity]
  cases transferEnvelopeAuthorizationVerify e with
  | error status => exact ⟨rfl, rfl⟩
  | ok u =>
  dsimp only
  cases hcheck : transferEnvelopeReplayCheckAt s.replay e with
  | duplicate => exact ⟨rfl, rfl⟩
  | argument => exact ⟨rfl, rfl⟩
  | capacity => exact ⟨rfl, rfl⟩
  | fresh =>
      dsimp only
      by_cases hfull : s.replay.count = s.replay.cells.length
      · rw [if_pos hfull, if_pos hfull]
        exact ⟨rfl, rfl⟩
      rw [if_neg hfull, if_neg hfull]
      have happly := economicStateApplyTransferAt_performs heconomy e.transfer
      obtain ⟨key, hconsume⟩ := transferEnvelopeReplayConsumeAt_of_fresh hcheck hfull
      have hconsumed := transferEnvelopeReplayConsumeAt_eq hreplay e
      rw [hconsume] at hconsumed
      generalize economicStateApplyTransferAt s.economy e.transfer = outcome at happly ⊢
      obtain ⟨result, economy⟩ := outcome
      cases result with
      | error status =>
          obtain ⟨hvalue, rfl⟩ := happly
          simp only [hvalue]
          exact ⟨rfl, rfl⟩
      | ok u =>
          have hvalue : economicStateApplyTransfer s.economy.state e.transfer =
            .ok economy.state := happly
          simp only [hvalue, hconsume, hconsumed, Prod.map, id]
          rfl

omit [Primitives] in
/-- The scratch holds what the economy holds, in as many cells. -/
theorem scratch_spec {s : BalanceStore} (h : s.table.Fits) {storage : List EconomicBalance}
    (hstorage : storage.length = s.table.cells.length) :
    ((Slots.mk storage s.table.count).copyFrom s.table).Fits ∧
      ((Slots.mk storage s.table.count).copyFrom s.table).cells.length = s.table.cells.length ∧
      (BalanceStore.mk ((Slots.mk storage s.table.count).copyFrom s.table) s.totalSupply).state =
        s.state := by
  have hlength : ((Slots.mk storage s.table.count).copyFrom s.table).cells.length =
      s.table.cells.length := by
    rw [Slots.length_copyFrom h (by rw [hstorage]; exact h), hstorage]
  have hentries : ((Slots.mk storage s.table.count).copyFrom s.table).entries =
      s.table.entries := Slots.take_copyFrom h
  refine ⟨?_, hlength, ?_⟩
  · rw [Slots.Fits, hlength]
    exact h
  · rw [BalanceStore.state, BalanceStore.state, hentries, hlength]

omit [Primitives] in
/-- Copied back, the balances are those of the scratch. -/
theorem copied_state {s next : BalanceStore} (hnext : next.table.Fits)
    (hlength : next.table.cells.length = s.table.cells.length) :
    (BalanceStore.mk ⟨(s.table.copyFrom next.table).cells, next.table.count⟩
      next.totalSupply).state = next.state := by
  have hentries : (Slots.mk (s.table.copyFrom next.table).cells next.table.count).entries =
      next.table.entries := Slots.take_copyFrom hnext
  have hcells : (s.table.copyFrom next.table).cells.length = next.table.cells.length := by
    rw [Slots.length_copyFrom hnext (by rw [← hlength]; exact hnext), hlength]
  rw [BalanceStore.state, BalanceStore.state, hentries, hcells]

/-- Both states are changed in copies, which replace them when nothing is left to fail. -/
theorem blockCompensationAcceptAt_performs {s : CompensationStores}
    (heconomy : s.economy.table.Fits) (hreplay : BlockReplayStored s.replay)
    (e : BlockCompensationEvidence) (issuance : IssuanceRecord) (compensation : CompensationState)
    {storage : List EconomicBalance} (hstorage : storage.length = s.economy.table.cells.length) :
    Performs CompensationStores.view s
      (blockCompensationAccept (blockReplayState s.replay) e issuance compensation s.economy.state)
      (blockCompensationAcceptAt s e issuance compensation (some storage)) := by
  have hlength : s.economy.table.entries.length = s.economy.table.count :=
    Slots.length_entries heconomy
  have hstate : s.economy.state =
      ⟨s.economy.table.entries, s.economy.table.cells.length, s.economy.totalSupply⟩ := rfl
  have hpure : ¬s.economy.state.balances.length > s.economy.state.capacity := by
    rw [hstate]
    dsimp only
    rw [hlength]
    exact BalanceStore.within heconomy
  rw [blockCompensationAccept, if_neg hpure, blockCompensationAcceptAt,
    if_neg (BalanceStore.within heconomy)]
  cases issuanceBindBlock issuance e compensation with
  | error status => exact ⟨rfl, rfl⟩
  | ok u =>
  rcases blockCompensationReplayCopyAt_cases hreplay.fits with
    ⟨hcopy, hcopied⟩ | ⟨status, hcopy, hcopied⟩
  swap
  · simp only [hcopy, hcopied]
    exact ⟨rfl, rfl⟩
  simp only [hcopy, hcopied, bind, Except.bind]
  have hconsume := blockCompensationReplayConsumeEvidenceAt_performs hreplay e
  generalize blockCompensationReplayConsumeEvidenceAt s.replay e = outcome at hconsume ⊢
  obtain ⟨result, nextReplay⟩ := outcome
  cases result with
  | error status =>
      simp only [hconsume.1]
      exact ⟨rfl, rfl⟩
  | ok u =>
      have hconsumed : blockCompensationReplayConsumeEvidence (blockReplayState s.replay) e =
        .ok (blockReplayState nextReplay) := hconsume
      simp only [hconsumed]
      by_cases hcapacity : s.economy.table.cells.length ≠ 0
      · rw [if_pos hcapacity]
        have hscratch := scratch_spec heconomy hstorage
        obtain ⟨happly, hkept⟩ := economicStateApplyAt_performs
          (s := ⟨(Slots.mk storage s.economy.table.count).copyFrom s.economy.table,
            s.economy.totalSupply⟩) hscratch.1 issuance
        rw [hscratch.2.2] at happly
        generalize economicStateApplyAt _ issuance = outcome at happly hkept ⊢
        obtain ⟨result, next⟩ := outcome
        cases result with
        | error status =>
            simp only [happly.1]
            exact ⟨rfl, rfl⟩
        | ok u =>
            have happlied : economicStateApply s.economy.state issuance = .ok next.state := happly
            have hback := copied_state hkept.fits (hkept.length.trans hscratch.2.1)
            simp only [happlied, Performs, CompensationStores.view, hback]
            rfl
      · rw [if_neg hcapacity]
        obtain ⟨happly, -⟩ := economicStateApplyAt_performs heconomy issuance
        generalize economicStateApplyAt s.economy issuance = outcome at happly ⊢
        obtain ⟨result, next⟩ := outcome
        cases result with
        | error status =>
            obtain ⟨hvalue, rfl⟩ := happly
            simp only [hvalue]
            exact ⟨rfl, rfl⟩
        | ok u =>
            have happlied : economicStateApply s.economy.state issuance = .ok next.state := happly
            simp only [happlied]
            rfl

/-- Without scratch storage nothing is changed. -/
theorem blockCompensationAcceptAt_none {s : CompensationStores}
    (hcapacity : s.economy.table.cells.length ≠ 0) (e : BlockCompensationEvidence)
    (issuance : IssuanceRecord) (compensation : CompensationState) :
    ∃ status, blockCompensationAcceptAt s e issuance compensation none = (.error status, s) := by
  simp only [blockCompensationAcceptAt, if_pos hcapacity]
  split
  · exact ⟨_, rfl⟩
  split
  · exact ⟨_, rfl⟩
  split
  · exact ⟨_, rfl⟩
  split
  · exact ⟨_, rfl⟩
  · exact ⟨_, rfl⟩

/-- Both acceptances change the economy and the replay set together, or fail and leave
the storage of both as it was. -/
theorem acceptance_atomic :
    (∀ (s : TransferStores) (e : TransferEnvelope), s.economy.table.Fits → s.replay.Fits →
      (∃ s', transferEnvelopeAcceptAt s e = (.ok (), s') ∧
        economicStateApplyTransfer s.economy.state e.transfer = .ok s'.economy.state ∧
        transferEnvelopeReplayConsume (transferReplayState s.replay) e =
          (.fresh, transferReplayState s'.replay)) ∨
      ∃ status, transferEnvelopeAcceptAt s e = (.error status, s) ∧
        transferEnvelopeAccept s.economy.state (transferReplayState s.replay) e =
          .error status) ∧
    (∀ (s : CompensationStores) (e : BlockCompensationEvidence) (issuance : IssuanceRecord)
      (compensation : CompensationState) (storage : Option (List EconomicBalance)),
      s.economy.table.Fits → BlockReplayStored s.replay →
      (∀ cells, storage = some cells → cells.length = s.economy.table.cells.length) →
      (∃ s', blockCompensationAcceptAt s e issuance compensation storage = (.ok (), s') ∧
        economicStateApply s.economy.state issuance = .ok s'.economy.state ∧
        blockCompensationReplayConsumeEvidence (blockReplayState s.replay) e =
          .ok (blockReplayState s'.replay)) ∨
      ∃ status, blockCompensationAcceptAt s e issuance compensation storage =
          (.error status, s) ∧
        (storage.isSome → blockCompensationAccept (blockReplayState s.replay) e issuance
          compensation s.economy.state = .error status)) := by
  constructor
  · intro s e heconomy hreplay
    rcases (transferEnvelopeAcceptAt_performs heconomy hreplay e).cases with
      ⟨s', hrun, hvalue⟩ | hfailed
    · obtain ⟨-, happlied, hconsumed⟩ := transferEnvelopeAccept_eq_ok hvalue
      exact .inl ⟨s', hrun, happlied, hconsumed⟩
    · exact .inr hfailed
  · intro s e issuance compensation storage heconomy hreplay hstorage
    -- Without balances no scratch is allocated, so it does not matter that there is none.
    obtain ⟨cells, hcells, hrun⟩ | ⟨hnone, hcapacity⟩ :
        (∃ cells : List EconomicBalance, cells.length = s.economy.table.cells.length ∧
          blockCompensationAcceptAt s e issuance compensation storage =
            blockCompensationAcceptAt s e issuance compensation (some cells)) ∨
        (storage = none ∧ s.economy.table.cells.length ≠ 0) := by
      cases storage with
      | some cells => exact .inl ⟨cells, hstorage cells rfl, rfl⟩
      | none =>
          by_cases hcapacity : s.economy.table.cells.length = 0
          · refine .inl ⟨[], hcapacity.symm, ?_⟩
            simp only [blockCompensationAcceptAt, hcapacity, ne_eq, not_true_eq_false, if_false]
          · exact .inr ⟨rfl, hcapacity⟩
    · rw [hrun]
      rcases (blockCompensationAcceptAt_performs heconomy hreplay e issuance compensation
        hcells).cases with ⟨s', haccepted, hvalue⟩ | ⟨status, hrejected, hvalue⟩
      · obtain ⟨-, hconsumed, happlied⟩ := blockCompensationAccept_eq_ok hvalue
        exact .inl ⟨s', haccepted, happlied, hconsumed⟩
      · exact .inr ⟨status, hrejected, fun _ => hvalue⟩
    · rw [hnone]
      obtain ⟨status, hstatus⟩ :=
        blockCompensationAcceptAt_none hcapacity e issuance compensation
      exact .inr ⟨status, hstatus, fun hsome => absurd hsome (by decide)⟩

end Joint

section Sample

/-- Every address has the digest seven, and every signature is good. -/
@[reducible] def signing : Primitives where
  sha256 _ _ := .ok 7
  ed25519Verify _ _ _ := true

attribute [local instance] signing

/-- Five units in the wallet of address seven, and room for one wallet and one envelope. -/
def fiveUnits : TransferStores where
  economy := ⟨⟨[⟨7, 5⟩, ⟨0, 0⟩], 1⟩, 5⟩
  replay := ⟨[⟨0, 0⟩], 0⟩

/-- Two of them to a new wallet. -/
def twoUnits : TransferEnvelope where
  controller := 5
  nonce := 1
  transfer := ⟨⟨.wallet, 7⟩, ⟨.wallet, 9⟩, 2⟩
  signature := 0

theorem fiveUnits_accepts_twoUnits :
    ∃ s', transferEnvelopeAcceptAt fiveUnits twoUnits = (.ok (), s') ∧
    s'.economy.table.entries = [⟨7, 3⟩, ⟨9, 2⟩] ∧ s'.replay.entries = [⟨5, 1⟩] := by
  have hrun : (transferEnvelopeAcceptAt fiveUnits twoUnits).1.toBool = true ∧
      (transferEnvelopeAcceptAt fiveUnits twoUnits).2.economy.table.entries =
        [⟨7, 3⟩, ⟨9, 2⟩] ∧
      (transferEnvelopeAcceptAt fiveUnits twoUnits).2.replay.entries = [⟨5, 1⟩] := by
    decide +kernel
  rcases acceptance_atomic.1 fiveUnits twoUnits (by decide) (by decide) with
    ⟨s', haccepted, -⟩ | ⟨status, hrejected, -⟩
  · rw [haccepted] at hrun
    exact ⟨s', haccepted, hrun.2⟩
  · rw [hrejected] at hrun
    cases hrun.1

end Sample

end StnChain
