import StnChain.Economy.State
import StnChain.Support.FixedWidth

/-!
# The stored form of the economic state

The codec of the restart cache (`stn_economic_persistence.c`): a version, the supply, the
number of balances and the balances in the order of their wallets.  `valid` is checked on
both sides and is `EconomicState.Conserved`, so that what is decoded are the encodings of
conserved states, `economicPersistence_codec`.
-/

namespace StnChain

open FixedWidth

/-- `STN_ECONOMIC_PERSISTENCE_VERSION`. -/
def economicPersistenceVersion : UInt8 := 1

/-- `STN_ECONOMIC_PERSISTENCE_HEADER_SIZE`. -/
def economicPersistenceHeaderSize : ℕ := 17

/-- `STN_ECONOMIC_PERSISTENCE_BALANCE_SIZE`. -/
def economicPersistenceBalanceSize : ℕ := 40

/-- `SIZE_MAX`. -/
def sizeMax : ℕ := 2 ^ 64 - 1

/-! ## Validation -/

/-- The loop of `valid`; `previous` is the wallet of the balance before. -/
def economicBalancesSum : Option (Octets 32) → UInt64 → List EconomicBalance →
    Except DataStatus UInt64
  | _, sum, [] => .ok sum
  | previous, sum, b :: rest =>
      if previous.any fun wallet => wallet ≥ b.walletId then .error .content
      else if uint64Max - sum < b.units then .error .overflow
      else economicBalancesSum (some b.walletId) (sum + b.units) rest

/-- `valid`. -/
def economicStateValid (s : EconomicState) : Except DataStatus Unit :=
  if s.balances.length > s.capacity then .error .content
  else
    match economicBalancesSum none 0 s.balances with
    | .error status => .error status
    | .ok sum => if sum = s.totalSupply then .ok () else .error .content

/-! ## Encoding and decoding -/

/-- How a balance is stored. -/
def economicBalanceFormat : RowFormat EconomicBalance where
  width := economicPersistenceBalanceSize
  put b := octetBytes b.walletId ++ wireWrite 8 b.units.toNat
  get p at' := ⟨octetsAt p at' 32, UInt64.ofNat (wireRead p (at' + 32) 8)⟩

/-- `stn_economic_persistence_size`. -/
def economicPersistenceSize (s : EconomicState) : Except DataStatus ℕ :=
  match economicStateValid s with
  | .error status => .error status
  | .ok () =>
      if s.balances.length >
          (sizeMax - economicPersistenceHeaderSize) / economicPersistenceBalanceSize then
        .error .overflow
      else .ok (economicPersistenceHeaderSize + s.balances.length * economicPersistenceBalanceSize)

/-- The octets `stn_economic_persistence_encode` writes. -/
def economicPersistenceBytes (s : EconomicState) : Bytes :=
  [economicPersistenceVersion] ++ wireWrite 8 s.totalSupply.toNat ++
    wireWrite 8 s.balances.length ++ economicBalanceFormat.write s.balances

/-- `stn_economic_persistence_encode`. -/
def economicPersistenceEncode (s : EconomicState) (capacity : ℕ) : Except DataStatus Bytes :=
  match economicPersistenceSize s with
  | .error status => .error status
  | .ok need => if capacity < need then .error .capacity else .ok (economicPersistenceBytes s)

/-- `stn_economic_persistence_decode`, into storage for `capacity` balances. -/
def economicPersistenceDecode (bytes : Bytes) (capacity : ℕ) : Except DataStatus EconomicState :=
  if bytes.length < economicPersistenceHeaderSize then .error .length
  else if byteAt bytes 0 ≠ economicPersistenceVersion then .error .version
  else
    let count := wireRead bytes 9 8
    if count > sizeMax then .error .overflow
    else if count > (sizeMax - economicPersistenceHeaderSize) / economicPersistenceBalanceSize then
      .error .overflow
    else if bytes.length ≠
        economicPersistenceHeaderSize + count * economicPersistenceBalanceSize then
      .error .length
    else if count > capacity then .error .capacity
    else
      let decoded : EconomicState := {
        balances := economicBalanceFormat.read bytes economicPersistenceHeaderSize count
        capacity
        totalSupply := UInt64.ofNat (wireRead bytes 1 8) }
      match economicStateValid decoded with
      | .error _ => .error .content
      | .ok () => .ok decoded

/-! ## Valid states -/

theorem economicBalancesSum_eq_ok_iff {previous : Option (Octets 32)} {sum total : UInt64}
    {balances : List EconomicBalance} :
    economicBalancesSum previous sum balances = .ok total ↔
      SortedTable.Sorted EconomicBalance.key balances ∧
      (∀ wallet ∈ previous, ∀ b ∈ balances, wallet.toNat < b.key) ∧
      total.toNat = sum.toNat + SortedTable.total (fun b => b.units.toNat) balances := by
  induction balances generalizing previous sum with
  | nil =>
      simp only [economicBalancesSum, Except.ok.injEq, SortedTable.total, List.map_nil,
        List.sum_nil, Nat.add_zero, UInt64.toNat_inj]
      constructor
      · rintro rfl
        exact ⟨.nil, fun wallet _ b hb => (by cases hb), rfl⟩
      · rintro ⟨-, -, rfl⟩
        rfl
  | cons b rest ih =>
      have horder : (previous.any fun wallet => wallet ≥ b.walletId) = true ↔
          ∃ wallet ∈ previous, b.key ≤ wallet.toNat := by
        simp [Option.any_eq_true, EconomicBalance.key, BitVec.le_def]
      simp only [economicBalancesSum]
      constructor
      · intro h
        split at h
        · cases h
        next habove =>
        split at h
        · cases h
        next hguard =>
        obtain ⟨hsorted, hfirst, htotal⟩ := ih.mp h
        have hadd := toNat_add_of_guard hguard
        refine ⟨List.pairwise_cons.mpr ⟨hfirst b.walletId rfl, hsorted⟩, ?_, ?_⟩
        · intro wallet hwallet b' hb'
          have hlow : wallet.toNat < b.key := by
            by_contra hhigh
            exact habove (horder.mpr ⟨wallet, hwallet, not_lt.mp hhigh⟩)
          rcases List.mem_cons.mp hb' with rfl | hb'
          · exact hlow
          · exact hlow.trans (hfirst b.walletId rfl b' hb')
        · rw [SortedTable.total_cons]
          omega
      · rintro ⟨hsorted, hfirst, htotal⟩
        obtain ⟨habove, hrest⟩ := List.pairwise_cons.mp hsorted
        rw [SortedTable.total_cons] at htotal
        have hlow : ¬(previous.any fun wallet => wallet ≥ b.walletId) = true := by
          rw [horder]
          rintro ⟨wallet, hwallet, hhigh⟩
          exact absurd (hfirst wallet hwallet b List.mem_cons_self) (not_lt.mpr hhigh)
        have hguard : ¬ uint64Max - sum < b.units := by
          have hfits := total.toNat_lt
          have hsum := sum.toNat_lt
          rw [uint64Max, UInt64.lt_iff_toNat_lt, UInt64.toNat_sub]
          simp only [UInt64.reduceToNat]
          omega
        have hadd := toNat_add_of_guard hguard
        rw [if_neg hlow, if_neg hguard]
        refine ih.mpr ⟨hrest, ?_, by omega⟩
        intro wallet hwallet b' hb'
        obtain rfl := Option.some.inj hwallet
        exact habove b' hb'

/-- The states the codec takes for valid are the conserved ones. -/
theorem economicStateValid_eq_ok_iff (s : EconomicState) :
    economicStateValid s = .ok () ↔ s.Conserved := by
  simp only [economicStateValid]
  constructor
  · intro h
    split at h
    · cases h
    next hwithin =>
    split at h
    · cases h
    next sum hsum =>
    split at h
    · next heq =>
        obtain ⟨hsorted, -, htotal⟩ := economicBalancesSum_eq_ok_iff.mp hsum
        rw [UInt64.toNat_zero, Nat.zero_add, heq] at htotal
        exact ⟨not_lt.mp hwithin, hsorted, htotal⟩
    · cases h
  · intro h
    have hsum : economicBalancesSum none 0 s.balances = .ok s.totalSupply := by
      refine economicBalancesSum_eq_ok_iff.mpr
        ⟨h.sorted, fun wallet hwallet => (by cases hwallet), ?_⟩
      rw [UInt64.toNat_zero, Nat.zero_add]
      exact h.supply
    rw [if_neg (not_lt.mpr h.within)]
    simp only [hsum, ↓reduceIte]

/-! ## Round trips -/

theorem economicBalanceFormat_lawful : economicBalanceFormat.Lawful where
  length_put b := by
    simp [economicBalanceFormat, economicPersistenceBalanceSize]
  get_put pre b post := by
    have hwallet : octetsAt (pre ++ (octetBytes b.walletId ++ wireWrite 8 b.units.toNat ++ post))
        pre.length 32 = b.walletId := by
      rw [octetsAt_append_right le_rfl, Nat.sub_self, List.append_assoc,
        octetsAt_append_left (by simp), octetsAt_octetBytes]
    have hunits : wireRead (pre ++ (octetBytes b.walletId ++ wireWrite 8 b.units.toNat ++ post))
        (pre.length + 32) 8 = b.units.toNat := by
      rw [wireRead_append_right (Nat.le_add_right _ _), Nat.add_sub_cancel_left, List.append_assoc,
        wireRead_append_right (by simp), length_octetBytes, Nat.sub_self,
        wireRead_append_left (by simp), wireRead_wireWrite (by simpa using b.units.toNat_lt)]
    simp only [economicBalanceFormat, hwallet, hunits, UInt64.ofNat_toNat]
  put_get p off h := by
    simp only [economicBalanceFormat, economicPersistenceBalanceSize] at h ⊢
    rw [toNat_ofNat_wireRead_eight, octetBytes_octetsAt (by omega), wireWrite_wireRead (by omega),
      BigEndian.field_append_field]

theorem length_economicPersistenceBytes (s : EconomicState) :
    (economicPersistenceBytes s).length =
      economicPersistenceHeaderSize + s.balances.length * economicPersistenceBalanceSize := by
  have hrows := economicBalanceFormat_lawful.length_write s.balances
  have hwidth : economicBalanceFormat.width = economicPersistenceBalanceSize := rfl
  simp only [economicPersistenceBytes, List.length_append, List.length_singleton,
    length_wireWrite, hrows, hwidth, economicPersistenceHeaderSize]

/-- The number of balances whose stored form has a length the machine can hold. -/
def economicPersistenceMaxCount : ℕ :=
  (sizeMax - economicPersistenceHeaderSize) / economicPersistenceBalanceSize

theorem economicPersistenceEncode_eq_ok_iff {s : EconomicState} {capacity : ℕ} {bytes : Bytes} :
    economicPersistenceEncode s capacity = .ok bytes ↔
      s.Conserved ∧ s.balances.length ≤ economicPersistenceMaxCount ∧ bytes.length ≤ capacity ∧
        economicPersistenceBytes s = bytes := by
  rw [← economicStateValid_eq_ok_iff]
  have hlength := length_economicPersistenceBytes s
  constructor
  · intro h
    simp only [economicPersistenceEncode] at h
    split at h
    · cases h
    next need hneed =>
    split at h
    · cases h
    next hroom =>
    obtain rfl := Except.ok.inj h
    simp only [economicPersistenceSize] at hneed
    split at hneed
    · cases hneed
    next hvalid =>
    split at hneed
    · cases hneed
    next hcount =>
    obtain rfl := Except.ok.inj hneed
    exact ⟨hvalid, not_lt.mp hcount, by omega, rfl⟩
  · rintro ⟨hvalid, hcount, hroom, rfl⟩
    have hsize : economicPersistenceSize s = .ok (economicPersistenceHeaderSize +
        s.balances.length * economicPersistenceBalanceSize) := by
      simp only [economicPersistenceSize, hvalid]
      exact if_neg (not_lt.mpr hcount)
    simp only [economicPersistenceEncode, hsize]
    rw [if_neg (by omega)]

/-- What the decoder reads in the header of an encoding. -/
theorem economicPersistenceBytes_read {s : EconomicState}
    (hcount : s.balances.length ≤ economicPersistenceMaxCount) :
    byteAt (economicPersistenceBytes s) 0 = economicPersistenceVersion ∧
      wireRead (economicPersistenceBytes s) 1 8 = s.totalSupply.toNat ∧
      wireRead (economicPersistenceBytes s) 9 8 = s.balances.length := by
  have hlow : s.balances.length < 256 ^ 8 := by
    simp only [economicPersistenceMaxCount, sizeMax, economicPersistenceHeaderSize,
      economicPersistenceBalanceSize] at hcount
    omega
  refine ⟨rfl, ?_, ?_⟩
  · rw [economicPersistenceBytes, List.append_assoc, List.append_assoc,
      wireRead_append_right (by simp), List.length_singleton, Nat.sub_self,
      wireRead_append_left (by simp), wireRead_wireWrite (by simpa using s.totalSupply.toNat_lt)]
  · rw [economicPersistenceBytes, wireRead_append_left (by simp), wireRead_append_right (by simp),
      List.length_append, List.length_singleton, length_wireWrite, Nat.sub_self,
      wireRead_wireWrite hlow]

/-- The balances are read back behind the header. -/
theorem economicPersistenceBytes_balances (s : EconomicState) :
    economicBalanceFormat.read (economicPersistenceBytes s) economicPersistenceHeaderSize
      s.balances.length = s.balances := by
  have hrows := economicBalanceFormat_lawful.read_write ([economicPersistenceVersion] ++
    wireWrite 8 s.totalSupply.toNat ++ wireWrite 8 s.balances.length) s.balances []
  rw [List.append_nil] at hrows
  have hheader : ([economicPersistenceVersion] ++ wireWrite 8 s.totalSupply.toNat ++
      wireWrite 8 s.balances.length).length = economicPersistenceHeaderSize := by
    simp [economicPersistenceHeaderSize]
  rwa [hheader] at hrows

/-- The decoder accepts the stored forms of conserved states that fit the storage. -/
theorem economicPersistenceDecode_eq_ok_iff {bytes : Bytes} {capacity : ℕ} {s : EconomicState} :
    economicPersistenceDecode bytes capacity = .ok s ↔
      s.Conserved ∧ s.capacity = capacity ∧ s.balances.length ≤ economicPersistenceMaxCount ∧
        economicPersistenceBytes s = bytes := by
  have hmax : economicPersistenceMaxCount ≤ sizeMax := by decide
  constructor
  · intro h
    simp only [economicPersistenceDecode] at h
    split at h
    · cases h
    next hheader =>
    split at h
    · cases h
    next hversion =>
    split at h
    · cases h
    split at h
    · cases h
    next hcount =>
    split at h
    · cases h
    next hlength =>
    split at h
    · cases h
    split at h
    · cases h
    next hvalid =>
    obtain rfl := Except.ok.inj h
    have hlength := not_not.mp hlength
    simp only [economicPersistenceHeaderSize, economicPersistenceBalanceSize] at hlength hheader
    have hrows : economicBalanceFormat.write (economicBalanceFormat.read bytes 17
        (wireRead bytes 9 8)) = BigEndian.field bytes 17 (wireRead bytes 9 8 * 40) :=
      economicBalanceFormat_lawful.write_read (le_of_eq hlength.symm)
    have hfirst : [economicPersistenceVersion] = BigEndian.field bytes 0 1 := by
      rw [field_succ 0 (by omega), field_zero, not_not.mp hversion]
    have hjoin (m n : ℕ) : BigEndian.field bytes 0 m ++ BigEndian.field bytes m n =
        BigEndian.field bytes 0 (m + n) := by
      simpa using BigEndian.field_append_field bytes 0 m n
    refine ⟨(economicStateValid_eq_ok_iff _).mp hvalid, rfl, ?_, ?_⟩
    · rw [RowFormat.length_read]
      exact not_lt.mp hcount
    · simp only [economicPersistenceBytes, toNat_ofNat_wireRead_eight, RowFormat.length_read,
        economicPersistenceHeaderSize]
      rw [hrows, hfirst, wireWrite_wireRead (by omega), wireWrite_wireRead (by omega), hjoin, hjoin,
        hjoin]
      exact BigEndian.field_zero_length hlength
  · rintro ⟨hconserved, rfl, hcount, rfl⟩
    obtain ⟨hversion, hsupply, hread⟩ := economicPersistenceBytes_read hcount
    have hlength := length_economicPersistenceBytes s
    have hshort : ¬ economicPersistenceHeaderSize +
        s.balances.length * economicPersistenceBalanceSize < economicPersistenceHeaderSize := by
      omega
    have hvalid := (economicStateValid_eq_ok_iff s).mpr hconserved
    simp only [economicPersistenceDecode, hlength, if_neg hshort, hversion, ne_eq,
      not_true_eq_false, ↓reduceIte, hread, hsupply, economicPersistenceBytes_balances,
      UInt64.ofNat_toNat, hvalid]
    have hfits : ¬ s.balances.length > sizeMax := by
      omega
    rw [if_neg hfits]
    exact (if_neg (not_lt.mpr hcount)).trans (if_neg (not_lt.mpr hconserved.within))

/-- The states the codec takes for valid are the conserved ones; a valid state is decoded from
its encoding into any storage that holds its balances; and the decoder accepts exactly the
encodings of valid states. -/
theorem economicPersistence_codec :
    (∀ s, economicStateValid s = .ok () ↔ s.Conserved) ∧
    (∀ s, economicStateValid s = .ok () → ∀ capacity,
      ((∃ bytes, economicPersistenceEncode s capacity = .ok bytes) ↔
        s.balances.length ≤ economicPersistenceMaxCount ∧
          economicPersistenceHeaderSize + s.balances.length * economicPersistenceBalanceSize ≤
            capacity) ∧
      ∀ bytes, economicPersistenceEncode s capacity = .ok bytes →
        ∀ storage, s.balances.length ≤ storage →
          economicPersistenceDecode bytes storage = .ok { s with capacity := storage }) ∧
    (∀ bytes storage s, economicPersistenceDecode bytes storage = .ok s →
      economicStateValid s = .ok () ∧
        bytes.length =
          economicPersistenceHeaderSize + s.balances.length * economicPersistenceBalanceSize ∧
        ∀ capacity, bytes.length ≤ capacity → economicPersistenceEncode s capacity = .ok bytes) ∧
    (∀ bytes storage, (∃ s, economicPersistenceDecode bytes storage = .ok s) ↔
      ∃ s capacity, economicPersistenceEncode s capacity = .ok bytes ∧
        s.balances.length ≤ storage) := by
  have hstorage {s : EconomicState} (h : s.Conserved) {storage : ℕ}
      (hroom : s.balances.length ≤ storage) : { s with capacity := storage }.Conserved :=
    ⟨hroom, h.sorted, h.supply⟩
  refine ⟨economicStateValid_eq_ok_iff, ?_, ?_, ?_⟩
  · intro s hvalid capacity
    have hconserved := (economicStateValid_eq_ok_iff s).mp hvalid
    have hlength := length_economicPersistenceBytes s
    refine ⟨?_, ?_⟩
    · constructor
      · rintro ⟨bytes, hencode⟩
        obtain ⟨-, hcount, hroom, rfl⟩ := economicPersistenceEncode_eq_ok_iff.mp hencode
        exact ⟨hcount, hlength ▸ hroom⟩
      · rintro ⟨hcount, hroom⟩
        exact ⟨economicPersistenceBytes s,
          economicPersistenceEncode_eq_ok_iff.mpr ⟨hconserved, hcount, hlength ▸ hroom, rfl⟩⟩
    · intro bytes hencode storage hroom
      obtain ⟨-, hcount, -, rfl⟩ := economicPersistenceEncode_eq_ok_iff.mp hencode
      exact economicPersistenceDecode_eq_ok_iff.mpr ⟨hstorage hconserved hroom, rfl, hcount, rfl⟩
  · intro bytes storage s hdecode
    obtain ⟨hconserved, -, hcount, rfl⟩ := economicPersistenceDecode_eq_ok_iff.mp hdecode
    exact ⟨(economicStateValid_eq_ok_iff s).mpr hconserved, length_economicPersistenceBytes s,
      fun capacity hroom =>
        economicPersistenceEncode_eq_ok_iff.mpr ⟨hconserved, hcount, hroom, rfl⟩⟩
  · intro bytes storage
    constructor
    · rintro ⟨s, hdecode⟩
      obtain ⟨hconserved, rfl, hcount, rfl⟩ := economicPersistenceDecode_eq_ok_iff.mp hdecode
      exact ⟨s, (economicPersistenceBytes s).length,
        economicPersistenceEncode_eq_ok_iff.mpr ⟨hconserved, hcount, le_rfl, rfl⟩,
        hconserved.within⟩
    · rintro ⟨s, capacity, hencode, hroom⟩
      obtain ⟨hconserved, hcount, -, rfl⟩ := economicPersistenceEncode_eq_ok_iff.mp hencode
      exact ⟨{ s with capacity := storage },
        economicPersistenceDecode_eq_ok_iff.mpr ⟨hstorage hconserved hroom, rfl, hcount, rfl⟩⟩

namespace Sample

/-- Two wallets. -/
def twoWallets : EconomicState where
  balances := [⟨3, 40⟩, ⟨7, 2⟩]
  capacity := 2
  totalSupply := 42

end Sample

open Sample in
theorem twoWallets_decoded : ∃ bytes, economicPersistenceEncode twoWallets 97 = .ok bytes ∧
    economicPersistenceDecode bytes 5 = .ok { twoWallets with capacity := 5 } ∧
    bytes.length = 97 := by
  obtain ⟨hencodes, hdecodes⟩ := economicPersistence_codec.2.1 twoWallets rfl 97
  obtain ⟨bytes, hbytes⟩ := hencodes.mpr ⟨by decide, by decide⟩
  have hdecode := hdecodes bytes hbytes 5 (by decide)
  obtain ⟨-, hlength, -⟩ := economicPersistence_codec.2.2.1 bytes 5 _ hdecode
  exact ⟨bytes, hbytes, hdecode, hlength⟩

end StnChain
