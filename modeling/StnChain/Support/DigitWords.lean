import StnChain.Support.Digits

/-!
# Digit loops on machine words

The loops of `Digits` keep their carry and their remainder in a number.  A program
keeps them in a 32-bit word, whose products and sums wrap around.  `scaleWord` and
`divideWord` are the loops as a program runs them; below a bound on the factor and the
divisor no step wraps, and they compute what the exact loops compute.
-/

namespace Digits

open BigEndian

/-! ## Words -/

/-- `scale` with a 32-bit carry. -/
def scaleWord (factor carry : UInt32) : List UInt8 → UInt32 × List UInt8
  | [] => (carry, [])
  | b :: rest =>
      let low := scaleWord factor carry rest
      let v := b.toUInt32 * factor + low.1
      (v >>> 8, (v &&& 255).toUInt8 :: low.2)

/-- `divide` with a 32-bit remainder. -/
def divideWord (d : UInt32) : UInt32 → List UInt8 → List UInt8 × UInt32
  | r, [] => ([], r)
  | r, b :: rest =>
      let v := r * 256 + b.toUInt32
      let low := divideWord d (v % d) rest
      ((v / d).toUInt8 :: low.1, low.2)

/-- The low octet of a word. -/
theorem toUInt8_and_255 {v : UInt32} {n : ℕ} (h : v.toNat = n) :
    (v &&& 255).toUInt8 = UInt8.ofNat n := by
  have hmask : (255 : UInt32).toNat = 2 ^ 8 - 1 := rfl
  apply UInt8.toNat_inj.mp
  rw [UInt32.toNat_toUInt8, UInt32.toNat_and, h, hmask, Nat.and_two_pow_sub_one_eq_mod,
    UInt8.toNat_ofNat', Nat.mod_mod]

/-- The carry of a scaling stays within the factor. -/
theorem scale_carry_le {factor carry : ℕ} (h : carry ≤ factor) (p : List UInt8) :
    (scale factor carry p).1 ≤ factor := by
  induction p with
  | nil => exact h
  | cons b p ih =>
      have hb := b.toNat_lt
      have hproduct : b.toNat * factor ≤ 255 * factor := Nat.mul_le_mul_right _ (by omega)
      simp only [scale]
      omega

/-- A factor below 24 bits keeps every step of a scaling below `2 ^ 32`. -/
theorem scaleWord_eq {factor carry : UInt32} (hfactor : factor.toNat < 2 ^ 24)
    (hcarry : carry.toNat ≤ factor.toNat) (p : List UInt8) :
    (scaleWord factor carry p).1.toNat = (scale factor.toNat carry.toNat p).1 ∧
      (scaleWord factor carry p).2 = (scale factor.toNat carry.toNat p).2 := by
  induction p with
  | nil => exact ⟨rfl, rfl⟩
  | cons b p ih =>
      obtain ⟨hlow, hdigits⟩ := ih
      have hb := b.toNat_lt
      have hbound := scale_carry_le hcarry p
      have hproduct : b.toNat * factor.toNat ≤ 255 * factor.toNat :=
        Nat.mul_le_mul_right _ (by omega)
      have hvalue : (b.toUInt32 * factor + (scaleWord factor carry p).1).toNat =
          b.toNat * factor.toNat + (scale factor.toNat carry.toNat p).1 := by
        rw [UInt32.toNat_add, UInt32.toNat_mul, UInt8.toNat_toUInt32, hlow,
          Nat.mod_eq_of_lt (by omega : b.toNat * factor.toNat < 2 ^ 32)]
        exact Nat.mod_eq_of_lt (by omega)
      have height : (8 : UInt32).toNat % 32 = 8 := rfl
      simp only [scaleWord, scale]
      refine ⟨?_, ?_⟩
      · rw [UInt32.toNat_shiftRight, hvalue, height, Nat.shiftRight_eq_div_pow]
      · rw [toUInt8_and_255 hvalue, hdigits]

/-- A divisor of at most 24 bits keeps every step of a division below `2 ^ 32`. -/
theorem divideWord_eq {d r : UInt32} (hd : d.toNat ≤ 2 ^ 24) (hr : r.toNat < d.toNat)
    (p : List UInt8) :
    (divideWord d r p).1 = (divide d.toNat r.toNat p).1 ∧
      (divideWord d r p).2.toNat = (divide d.toNat r.toNat p).2 := by
  induction p generalizing r with
  | nil => exact ⟨rfl, rfl⟩
  | cons b p ih =>
      have hb := b.toNat_lt
      have hbase : (256 : UInt32).toNat = 256 := rfl
      have hvalue : (r * 256 + b.toUInt32).toNat = r.toNat * 256 + b.toNat := by
        rw [UInt32.toNat_add, UInt32.toNat_mul, UInt8.toNat_toUInt32, hbase,
          Nat.mod_eq_of_lt (by omega : r.toNat * 256 < 2 ^ 32)]
        exact Nat.mod_eq_of_lt (by omega)
      have hremainder : ((r * 256 + b.toUInt32) % d).toNat =
          (r.toNat * 256 + b.toNat) % d.toNat := by
        rw [UInt32.toNat_mod, hvalue]
      have hlow := ih (r := (r * 256 + b.toUInt32) % d)
        (by rw [hremainder]; exact Nat.mod_lt _ (by omega))
      rw [hremainder] at hlow
      have hdigit : ((r * 256 + b.toUInt32) / d).toUInt8 =
          UInt8.ofNat ((r.toNat * 256 + b.toNat) / d.toNat) := by
        apply UInt8.toNat_inj.mp
        rw [UInt32.toNat_toUInt8, UInt32.toNat_div, hvalue, UInt8.toNat_ofNat']
      simp only [divideWord, divide]
      exact ⟨by rw [hdigit, hlow.1], hlow.2⟩

end Digits
