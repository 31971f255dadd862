import StnChain.Support.BigEndian
import Mathlib.Tactic.Linarith

/-!
# Digit-wise arithmetic on octet strings

Programs without a wide integer type compute on octet strings one digit at a
time: scaling from the least significant digit with a carry, dividing from the
most significant digit with a remainder, adding and subtracting two strings of
one length.  The functions below are these loops; their correctness statements
relate the digits produced, and the carry left over, to the numbers the strings
denote.
-/

namespace Digits

open BigEndian

/-- Multiply by `factor` and add `carry`: the carry out, and the digits. -/
def scale (factor carry : ℕ) : List UInt8 → ℕ × List UInt8
  | [] => (carry, [])
  | b :: rest =>
      let low := scale factor carry rest
      let v := b.toNat * factor + low.1
      (v / 256, UInt8.ofNat v :: low.2)

/-- Divide by `d` with `r` already carried from above: quotient and remainder. -/
def divide (d : ℕ) : ℕ → List UInt8 → List UInt8 × ℕ
  | r, [] => ([], r)
  | r, b :: rest =>
      let v := r * 256 + b.toNat
      let low := divide d (v % d) rest
      (UInt8.ofNat (v / d) :: low.1, low.2)

/-- Add two strings of one length: the carry out, and the digits. -/
def add : List UInt8 → List UInt8 → ℕ × List UInt8
  | a :: as, b :: bs =>
      let low := add as bs
      let v := a.toNat + b.toNat + low.1
      (v / 256, UInt8.ofNat v :: low.2)
  | _, _ => (0, [])

/-- Subtract the second string from the first: the borrow out, and the digits. -/
def subtract : List UInt8 → List UInt8 → ℕ × List UInt8
  | a :: as, b :: bs =>
      let low := subtract as bs
      let sub := b.toNat + low.1
      (if a.toNat < sub then 1 else 0, UInt8.ofNat (a.toNat + 512 - sub) :: low.2)
  | _, _ => (0, [])

@[simp]
theorem length_scale (factor carry : ℕ) (p : List UInt8) :
    (scale factor carry p).2.length = p.length := by
  induction p with
  | nil => rfl
  | cons b p ih => simp [scale, ih]

/-- Scaling loses nothing: the carry out and the digits are the exact product. -/
theorem read_scale (factor carry : ℕ) (p : List UInt8) :
    (scale factor carry p).1 * 256 ^ p.length + read (scale factor carry p).2 =
      read p * factor + carry := by
  induction p with
  | nil => simp [scale]
  | cons b p ih =>
      rcases hlow : scale factor carry p with ⟨c, out⟩
      have hlen : out.length = p.length := by
        have h := length_scale factor carry p
        rwa [hlow] at h
      rw [hlow] at ih
      dsimp only at ih
      have hdigit : (UInt8.ofNat (b.toNat * factor + c)).toNat =
          (b.toNat * factor + c) % 256 := by simp
      have hsplit := Nat.div_add_mod (b.toNat * factor + c) 256
      simp only [scale, hlow, read_cons, List.length_cons, hlen, hdigit]
      calc
        (b.toNat * factor + c) / 256 * 256 ^ (p.length + 1) +
            ((b.toNat * factor + c) % 256 * 256 ^ p.length + read out) =
            (256 * ((b.toNat * factor + c) / 256) + (b.toNat * factor + c) % 256) *
              256 ^ p.length + read out := by ring
        _ = (b.toNat * factor + c) * 256 ^ p.length + read out := by rw [hsplit]
        _ = b.toNat * 256 ^ p.length * factor + (c * 256 ^ p.length + read out) := by ring
        _ = b.toNat * 256 ^ p.length * factor + (read p * factor + carry) := by rw [ih]
        _ = (b.toNat * 256 ^ p.length + read p) * factor + carry := by ring

@[simp]
theorem length_divide (d r : ℕ) (p : List UInt8) : (divide d r p).1.length = p.length := by
  induction p generalizing r with
  | nil => rfl
  | cons b p ih => simp [divide, ih]

theorem divide_remainder_lt {d r : ℕ} (hr : r < d) (p : List UInt8) : (divide d r p).2 < d := by
  induction p generalizing r with
  | nil => exact hr
  | cons b p ih => exact ih (Nat.mod_lt _ (by omega))

/-- A remainder below the divisor leaves a quotient that fits one digit. -/
theorem digit_lt {d r : ℕ} (hr : r < d) (b : UInt8) : (r * 256 + b.toNat) / d < 256 := by
  have hb := b.toNat_lt
  rw [Nat.div_lt_iff_lt_mul (by omega)]
  omega

/-- Dividing loses nothing: quotient and remainder are those of the number. -/
theorem read_divide {d r : ℕ} (hr : r < d) (p : List UInt8) :
    d * read (divide d r p).1 + (divide d r p).2 = r * 256 ^ p.length + read p := by
  induction p generalizing r with
  | nil => simp [divide, read_nil]
  | cons b p ih =>
      have hlow := ih (Nat.mod_lt (r * 256 + b.toNat) (by omega : 0 < d))
      have hdigit : (UInt8.ofNat ((r * 256 + b.toNat) / d)).toNat = (r * 256 + b.toNat) / d := by
        rw [UInt8.toNat_ofNat']
        exact Nat.mod_eq_of_lt (digit_lt hr b)
      have hsplit := Nat.div_add_mod (r * 256 + b.toNat) d
      simp only [divide, read_cons, List.length_cons, length_divide, hdigit]
      calc
        d * ((r * 256 + b.toNat) / d * 256 ^ p.length +
              read (divide d ((r * 256 + b.toNat) % d) p).1) +
            (divide d ((r * 256 + b.toNat) % d) p).2 =
            d * ((r * 256 + b.toNat) / d) * 256 ^ p.length +
              (d * read (divide d ((r * 256 + b.toNat) % d) p).1 +
                (divide d ((r * 256 + b.toNat) % d) p).2) := by ring
        _ = d * ((r * 256 + b.toNat) / d) * 256 ^ p.length +
              ((r * 256 + b.toNat) % d * 256 ^ p.length + read p) := by rw [hlow]
        _ = (d * ((r * 256 + b.toNat) / d) + (r * 256 + b.toNat) % d) * 256 ^ p.length +
              read p := by ring
        _ = (r * 256 + b.toNat) * 256 ^ p.length + read p := by rw [hsplit]
        _ = r * 256 ^ (p.length + 1) + (b.toNat * 256 ^ p.length + read p) := by ring

/-- The quotient of a whole string. -/
theorem read_divide_zero {d : ℕ} (hd : 0 < d) (p : List UInt8) :
    read (divide d 0 p).1 = read p / d := by
  have hexact := read_divide hd p
  have hlt := divide_remainder_lt hd p
  rw [Nat.zero_mul, Nat.zero_add] at hexact
  rw [← hexact, Nat.mul_add_div hd, Nat.div_eq_of_lt hlt, Nat.add_zero]

theorem length_add {p q : List UInt8} (h : p.length = q.length) :
    (add p q).2.length = p.length := by
  induction p generalizing q with
  | nil => simp [add]
  | cons a p ih =>
      cases q with
      | nil => simp at h
      | cons b q => simpa [add] using ih (Nat.succ.inj h)

/-- Adding loses nothing: the carry out and the digits are the exact sum. -/
theorem read_add {p q : List UInt8} (h : p.length = q.length) :
    (add p q).1 * 256 ^ p.length + read (add p q).2 = read p + read q := by
  induction p generalizing q with
  | nil =>
      obtain rfl := List.length_eq_zero_iff.mp h.symm
      simp [add]
  | cons a p ih =>
      cases q with
      | nil => simp at h
      | cons b q =>
          have htail : p.length = q.length := Nat.succ.inj h
          have hlow := ih htail
          have hlen := length_add htail
          rcases hadd : add p q with ⟨c, out⟩
          rw [hadd] at hlow hlen
          dsimp only at hlow hlen
          have hdigit : (UInt8.ofNat (a.toNat + b.toNat + c)).toNat =
              (a.toNat + b.toNat + c) % 256 := by simp
          have hsplit := Nat.div_add_mod (a.toNat + b.toNat + c) 256
          simp only [add, hadd, read_cons, List.length_cons, hlen, hdigit, ← htail]
          calc
            (a.toNat + b.toNat + c) / 256 * 256 ^ (p.length + 1) +
                ((a.toNat + b.toNat + c) % 256 * 256 ^ p.length + read out) =
                (256 * ((a.toNat + b.toNat + c) / 256) + (a.toNat + b.toNat + c) % 256) *
                  256 ^ p.length + read out := by ring
            _ = (a.toNat + b.toNat + c) * 256 ^ p.length + read out := by rw [hsplit]
            _ = (a.toNat + b.toNat) * 256 ^ p.length + (c * 256 ^ p.length + read out) := by ring
            _ = (a.toNat + b.toNat) * 256 ^ p.length + (read p + read q) := by rw [hlow]
            _ = a.toNat * 256 ^ p.length + read p + (b.toNat * 256 ^ p.length + read q) := by ring

theorem length_subtract {p q : List UInt8} (h : p.length = q.length) :
    (subtract p q).2.length = p.length := by
  induction p generalizing q with
  | nil => simp [subtract]
  | cons a p ih =>
      cases q with
      | nil => simp at h
      | cons b q => simpa [subtract] using ih (Nat.succ.inj h)

theorem subtract_borrow_le_one (p q : List UInt8) : (subtract p q).1 ≤ 1 := by
  cases p with
  | nil => simp [subtract]
  | cons a p =>
      cases q with
      | nil => simp [subtract]
      | cons b q =>
          simp only [subtract]
          split <;> simp

/-- Subtracting loses nothing: the digits exceed the difference by the borrow out. -/
theorem read_subtract {p q : List UInt8} (h : p.length = q.length) :
    read (subtract p q).2 + read q = read p + (subtract p q).1 * 256 ^ p.length := by
  induction p generalizing q with
  | nil =>
      obtain rfl := List.length_eq_zero_iff.mp h.symm
      simp [subtract]
  | cons a p ih =>
      cases q with
      | nil => simp at h
      | cons b q =>
          have htail : p.length = q.length := Nat.succ.inj h
          have hlow := ih htail
          have hlen := length_subtract htail
          have hborrow := subtract_borrow_le_one p q
          rcases hsub : subtract p q with ⟨c, out⟩
          rw [hsub] at hlow hlen hborrow
          dsimp only at hlow hlen hborrow
          have ha := a.toNat_lt
          have hb := b.toNat_lt
          have hdigit : (UInt8.ofNat (a.toNat + 512 - (b.toNat + c))).toNat + (b.toNat + c) =
              a.toNat + (if a.toNat < b.toNat + c then 1 else 0) * 256 := by
            simp only [UInt8.toNat_ofNat']
            split <;> omega
          simp only [subtract, hsub, read_cons, List.length_cons, hlen, ← htail]
          generalize (UInt8.ofNat (a.toNat + 512 - (b.toNat + c))).toNat = digit at hdigit ⊢
          generalize (if a.toNat < b.toNat + c then 1 else 0) = borrow at hdigit ⊢
          calc
            digit * 256 ^ p.length + read out + (b.toNat * 256 ^ p.length + read q) =
                digit * 256 ^ p.length + b.toNat * 256 ^ p.length + (read out + read q) := by ring
            _ = digit * 256 ^ p.length + b.toNat * 256 ^ p.length +
                (read p + c * 256 ^ p.length) := by rw [hlow]
            _ = (digit + (b.toNat + c)) * 256 ^ p.length + read p := by ring
            _ = (a.toNat + borrow * 256) * 256 ^ p.length + read p := by rw [hdigit]
            _ = a.toNat * 256 ^ p.length + read p + borrow * 256 ^ (p.length + 1) := by ring

end Digits
