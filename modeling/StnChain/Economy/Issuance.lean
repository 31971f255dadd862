import StnChain.Economy.Compensation

/-!
# Mining issuance records

The canonical issuance record of `stn_issuance.c`.  The reason fixes the
amount: a share issues 100 units, a block 10000.
-/

namespace StnChain

/-- `STN_ISSUANCE_REASON_SHARE`. -/
def issuanceReasonShare : UInt8 := 1

/-- `STN_ISSUANCE_REASON_BLOCK`. -/
def issuanceReasonBlock : UInt8 := 2

/-- `STN_ISSUANCE_SHARE_UNITS`. -/
def issuanceShareUnits : UInt64 := 100

/-- `STN_ISSUANCE_BLOCK_UNITS`. -/
def issuanceBlockUnits : UInt64 := 10000

/-- `STN_ISSUANCE_CANONICAL_SIZE`. -/
def issuanceCanonicalSize : ℕ := 106

/-- `stn_issuance_record`. -/
structure IssuanceRecord where
  reason : UInt8
  units : UInt64
  evidenceId : Octets 32
  destination : CompensationDestination
  deriving DecidableEq

/-- `valid_amount`. -/
def validAmount (reason : UInt8) (units : UInt64) : Bool :=
  (reason = issuanceReasonShare && units = issuanceShareUnits) ||
    (reason = issuanceReasonBlock && units = issuanceBlockUnits)

/-- The canonical octets of an issuance record. -/
def issuanceBytes (r : IssuanceRecord) : Bytes :=
  [1, r.reason] ++ wireWrite 8 r.units.toNat ++ octetBytes r.evidenceId ++
    octetBytes r.destination.miningIdentity.identifier ++
    octetBytes r.destination.wallet.identifier

/-- `stn_issuance_encode`. -/
def issuanceEncode (r : IssuanceRecord) : Except DataStatus Bytes :=
  if r.destination.miningIdentity.type ≠ .identity ∨ r.destination.wallet.type ≠ .wallet then
    .error .type
  else if !validAmount r.reason r.units then .error .content
  else .ok (issuanceBytes r)

/-- `stn_issuance_decode`. -/
def issuanceDecode (canonical : Bytes) : Except DataStatus IssuanceRecord :=
  if canonical.length ≠ issuanceCanonicalSize then .error .length
  else if byteAt canonical 0 ≠ 1 then .error .version
  else
    let reason := byteAt canonical 1
    let units := UInt64.ofNat (wireRead canonical 2 8)
    if !validAmount reason units then .error .content
    else .ok {
      reason, units
      evidenceId := octetsAt canonical 10 32
      destination := ⟨⟨.identity, octetsAt canonical 42 32⟩, ⟨.wallet, octetsAt canonical 74 32⟩⟩ }

theorem issuanceDecode_eq_ok {canonical : Bytes} {r : IssuanceRecord}
    (h : issuanceDecode canonical = .ok r) :
    canonical.length = 106 ∧ byteAt canonical 0 = 1 ∧ validAmount r.reason r.units = true ∧
      r = { reason := byteAt canonical 1
            units := UInt64.ofNat (wireRead canonical 2 8)
            evidenceId := octetsAt canonical 10 32
            destination := ⟨⟨.identity, octetsAt canonical 42 32⟩,
              ⟨.wallet, octetsAt canonical 74 32⟩⟩ } := by
  simp only [issuanceDecode] at h
  split at h
  · simp at h
  next hlen =>
  split at h
  · simp at h
  next hversion =>
  split at h
  · simp at h
  next hamount =>
  obtain rfl := (Except.ok.inj h).symm
  exact ⟨not_not.mp hlen, not_not.mp hversion, by simpa using hamount, rfl⟩

/-- Encoding what was decoded gives the same octets. -/
theorem issuanceBytes_of_decode {canonical : Bytes} {r : IssuanceRecord}
    (h : issuanceDecode canonical = .ok r) : issuanceBytes r = canonical := by
  obtain ⟨hlen, hversion, -, rfl⟩ := issuanceDecode_eq_ok h
  have hhead : ([1, byteAt canonical 1] : Bytes) = BigEndian.field canonical 0 2 := by
    rw [field_succ 1 (by omega), field_succ 0 (by omega), hversion, field_zero]
  simp only [issuanceBytes, toNat_ofNat_wireRead_eight]
  rw [wireWrite_wireRead (by omega), octetBytes_octetsAt (by omega),
    octetBytes_octetsAt (by omega), octetBytes_octetsAt (by omega), hhead,
    BigEndian.field_append_field, BigEndian.field_append_field,
    BigEndian.field_append_field, BigEndian.field_append_field]
  exact BigEndian.field_zero_length hlen

/-- The record determines the octets it was decoded from. -/
theorem issuanceDecode_injective {p q : Bytes} {r : IssuanceRecord}
    (hp : issuanceDecode p = .ok r) (hq : issuanceDecode q = .ok r) : p = q :=
  (issuanceBytes_of_decode hp).symm.trans (issuanceBytes_of_decode hq)

@[simp]
theorem length_issuanceBytes (r : IssuanceRecord) :
    (issuanceBytes r).length = issuanceCanonicalSize := by
  simp [issuanceBytes, issuanceCanonicalSize]

/-- A record is read back from its canonical octets. -/
theorem issuanceDecode_of_encode {r : IssuanceRecord} {canonical : Bytes}
    (h : issuanceEncode r = .ok canonical) : issuanceDecode canonical = .ok r := by
  obtain ⟨reason, units, evidenceId, ⟨⟨_, identity⟩, ⟨_, wallet⟩⟩⟩ := r
  simp only [issuanceEncode] at h
  split at h
  · simp at h
  next htypes =>
  split at h
  · simp at h
  next hamount =>
  have hvalid : validAmount reason units = true := by simpa using hamount
  obtain ⟨hidentity, hwallet⟩ := not_or.mp htypes
  obtain rfl := not_not.mp hidentity
  obtain rfl := not_not.mp hwallet
  obtain rfl := Except.ok.inj h
  have hversion : ∀ rest : Bytes, byteAt ([1, reason] ++ rest) 0 = 1 := fun _ => rfl
  have hreason : ∀ rest : Bytes, byteAt ([1, reason] ++ rest) 1 = reason := fun _ => rfl
  simp only [issuanceDecode, length_issuanceBytes, ne_eq, not_true_eq_false, if_false]
  simp (disch := simp) only [issuanceBytes, List.append_assoc, hversion, hreason,
    wireRead_append_right, wireRead_append_left, octetsAt_append_left, octetsAt_append_right,
    ofNat_wireRead_wireWrite_eight, octetsAt_octetBytes, length_wireWrite, length_octetBytes,
    List.length_cons, List.length_nil, Nat.reduceAdd, Nat.reduceSub, hvalid, Bool.not_true,
    not_true_eq_false, Bool.false_eq_true, if_false]

end StnChain
