import StnChain.Identity
import StnChain.Support.SortedTable

/-!
# Compensation destinations

A mining identity names the wallet its rewards go to (`stn_compensation.c`).
The accepted mapping is a table sorted by identity, in which a mapping once
accepted is never changed (`stn_compensation_state.c`).
-/

namespace StnChain

/-- `stn_compensation_destination`. -/
structure CompensationDestination where
  miningIdentity : Address
  wallet : Address
  deriving DecidableEq

/-- `STN_COMPENSATION_DESTINATION_SIZE`. -/
def compensationDestinationSize : ℕ := 65

/-- `stn_compensation_destination_encode`. -/
def compensationDestinationEncode (d : CompensationDestination) : Except DataStatus Bytes :=
  if d.miningIdentity.type ≠ .identity ∨ d.wallet.type ≠ .wallet then .error .type
  else .ok ([1] ++ octetBytes d.miningIdentity.identifier ++ octetBytes d.wallet.identifier)

/-- `stn_compensation_destination_decode`. -/
def compensationDestinationDecode (canonical : Bytes) :
    Except DataStatus CompensationDestination :=
  if canonical.length ≠ compensationDestinationSize then .error .length
  else if byteAt canonical 0 ≠ 1 then .error .version
  else .ok ⟨⟨.identity, octetsAt canonical 1 32⟩, ⟨.wallet, octetsAt canonical 33 32⟩⟩

/-- `stn_compensation_state`. -/
structure CompensationState where
  entries : List CompensationDestination
  capacity : ℕ

/-- The key the mapping is sorted by. -/
def CompensationDestination.key (d : CompensationDestination) : ℕ :=
  d.miningIdentity.identifier.toNat

/-- `stn_compensation_state_initialize`. -/
def compensationStateInitialize (capacity : ℕ) : CompensationState :=
  ⟨[], capacity⟩

/-- `stn_compensation_state_apply`. -/
def compensationStateApply (s : CompensationState) (d : CompensationDestination) :
    Except DataStatus CompensationState :=
  if d.miningIdentity.type ≠ .identity ∨ d.wallet.type ≠ .wallet then .error .type
  else if s.entries.length > s.capacity then .error .argument
  else
    let append :=
      if s.entries.length = s.capacity then .error .capacity
      else .ok { s with entries := SortedTable.insert CompensationDestination.key d s.entries }
    match SortedTable.above CompensationDestination.key d.key s.entries with
    | [] => append
    | e :: _ =>
        if e.key = d.key then
          if e.wallet.identifier = d.wallet.identifier then .ok s else .error .duplicate
        else append

/-- `stn_compensation_state_lookup`. -/
def compensationStateLookup (s : CompensationState) (identity : Address) :
    Except DataStatus Address :=
  if identity.type ≠ .identity then .error .type
  else if s.entries.length > s.capacity then .error .argument
  else
    match SortedTable.find CompensationDestination.key identity.identifier.toNat s.entries with
    | some e => .ok e.wallet
    | none => .error .unresolved

/-- The mapping fits its storage and is sorted by identity. -/
structure CompensationState.WellFormed (s : CompensationState) : Prop where
  within : s.entries.length ≤ s.capacity
  sorted : SortedTable.Sorted CompensationDestination.key s.entries

theorem compensationStateApply_cases {s s' : CompensationState} {d : CompensationDestination}
    (h : compensationStateApply s d = .ok s') :
    (s' = s ∧ ∃ e rest, SortedTable.above CompensationDestination.key d.key s.entries = e :: rest ∧
        e.key = d.key ∧ e.wallet.identifier = d.wallet.identifier) ∨
      (s.entries.length < s.capacity ∧
        (∀ x rest, SortedTable.above CompensationDestination.key d.key s.entries = x :: rest →
          x.key ≠ d.key) ∧
        s' = { s with entries := SortedTable.insert CompensationDestination.key d s.entries }) := by
  simp only [compensationStateApply] at h
  split at h
  · simp at h
  split at h
  · simp at h
  next hwithin =>
  have happend : ∀ t : CompensationState,
      (if s.entries.length = s.capacity then (.error .capacity : Except DataStatus _)
        else .ok { s with
          entries := SortedTable.insert CompensationDestination.key d s.entries }) = .ok t →
      s.entries.length < s.capacity ∧
        t = { s with entries := SortedTable.insert CompensationDestination.key d s.entries } := by
    intro t ht
    split at ht
    · simp at ht
    · next hroom =>
        exact ⟨by omega, (Except.ok.inj ht).symm⟩
  split at h
  · next hnil =>
      obtain ⟨hroom, rfl⟩ := happend s' h
      exact .inr ⟨hroom, by simp [hnil], rfl⟩
  · next e rest hcons =>
      split at h
      · next hkey =>
          split at h
          · next hwallet => exact .inl ⟨(Except.ok.inj h).symm, e, rest, hcons, hkey, hwallet⟩
          · simp at h
      · next hne =>
          obtain ⟨hroom, rfl⟩ := happend s' h
          refine .inr ⟨hroom, ?_, rfl⟩
          intro x rest' hx
          obtain ⟨rfl, rfl⟩ : e = x ∧ rest = rest' := by simpa [hcons] using hx
          exact hne

theorem compensationStateApply_wellFormed {s s' : CompensationState}
    {d : CompensationDestination} (hs : s.WellFormed)
    (h : compensationStateApply s d = .ok s') : s'.WellFormed := by
  rcases compensationStateApply_cases h with ⟨rfl, -⟩ | ⟨hroom, hnew, rfl⟩
  · exact hs
  · exact ⟨by simp; omega, hs.sorted.insert hnew⟩

/-- A mapping that is accepted stays as it is when further ones are. -/
theorem compensationStateLookup_apply {s s' : CompensationState}
    {d : CompensationDestination} (hs : s.WellFormed)
    (h : compensationStateApply s d = .ok s') {identity wallet : Address}
    (hlookup : compensationStateLookup s identity = .ok wallet) :
    compensationStateLookup s' identity = .ok wallet := by
  have hs' := compensationStateApply_wellFormed hs h
  rcases compensationStateApply_cases h with ⟨rfl, -⟩ | ⟨_, _, rfl⟩
  · exact hlookup
  simp only [compensationStateLookup] at hlookup ⊢
  split at hlookup
  · simp at hlookup
  next htype =>
  rw [if_neg htype, if_neg (not_lt.mpr hs'.within)]
  rw [if_neg (not_lt.mpr hs.within)] at hlookup
  split at hlookup
  · next e hfind =>
      have hmem := hs.sorted.find_eq_some_iff.mp hfind
      have hfind' := hs'.sorted.find_eq_some_iff.mpr
        ⟨SortedTable.mem_insert.mpr (.inr hmem.1), hmem.2⟩
      rw [hfind']
      exact hlookup
  · simp at hlookup

/-- The types of an accepted mapping. -/
theorem compensationStateApply_types {s s' : CompensationState} {d : CompensationDestination}
    (h : compensationStateApply s d = .ok s') :
    d.miningIdentity.type = .identity ∧ d.wallet.type = .wallet := by
  simp only [compensationStateApply] at h
  split at h
  · simp at h
  next htypes =>
  obtain ⟨hidentity, hwallet⟩ := not_or.mp htypes
  exact ⟨not_not.mp hidentity, not_not.mp hwallet⟩

/-- The wallet the mapping has for an identity. -/
def CompensationState.walletOf (s : CompensationState) (miner : Octets 32) : Option (Octets 32) :=
  (SortedTable.find CompensationDestination.key miner.toNat s.entries).map fun e =>
    e.wallet.identifier

/-- An accepted destination maps its identity unless that was mapped before. -/
theorem compensationStateApply_walletOf {s s' : CompensationState} {d : CompensationDestination}
    (h : compensationStateApply s d = .ok s') (miner : Octets 32) :
    s'.walletOf miner = (s.walletOf miner).or
      (if d.miningIdentity.identifier = miner then some d.wallet.identifier else none) := by
  have hkey : d.key = miner.toNat ↔ d.miningIdentity.identifier = miner := BitVec.toNat_inj
  rcases compensationStateApply_cases h with ⟨rfl, e, rest, habove, he, hwallet⟩ | ⟨-, hnew, rfl⟩
  · by_cases hminer : d.miningIdentity.identifier = miner
    · have hfind := SortedTable.find_of_above habove he
      rw [hkey.mpr hminer] at hfind
      simp [CompensationState.walletOf, hfind]
    · simp [hminer]
  · by_cases hminer : d.miningIdentity.identifier = miner
    · have hnone := SortedTable.find_eq_none hnew
      rw [hkey.mpr hminer] at hnone
      simp [CompensationState.walletOf, SortedTable.find_insert hnew, hkey.mpr hminer, hnone,
        hminer]
    · simp [CompensationState.walletOf, SortedTable.find_insert hnew, hkey, hminer]

end StnChain
