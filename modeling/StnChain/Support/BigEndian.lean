import Mathlib.Data.Nat.ModEq
import Mathlib.Tactic.Ring

/-!
# Big-endian byte strings

Fixed-width binary formats store a natural number as a string of octets, most
significant first, and cut a record into fields by offset and width.  This
module develops both operations over lists of octets: reading and writing a
number of a given width, and the slices of a byte string.

Nothing here refers to a particular format.  A codec instantiates `write` at
its field widths, and its round trips follow from `read_write`, `write_read`
and the decomposition `field_append_field`.
-/

namespace BigEndian

/-- The number a string of octets denotes, most significant octet first. -/
def read (p : List UInt8) : ℕ :=
  p.foldl (fun v b => v * 256 + b.toNat) 0

/-- The `n` low-order octets of `v`, most significant first. -/
def write : ℕ → ℕ → List UInt8
  | 0, _ => []
  | n + 1, v => UInt8.ofNat (v / 256 ^ n) :: write n v

/-- The `n` octets of `p` from offset `off` on. -/
def field (p : List UInt8) (off n : ℕ) : List UInt8 :=
  (p.drop off).take n

/-! ## Reading and writing -/

@[simp]
theorem length_write (n v : ℕ) : (write n v).length = n := by
  induction n with
  | zero => rfl
  | succ n ih => simp [write, ih]

private theorem foldl_read (p : List UInt8) (v : ℕ) :
    p.foldl (fun v b => v * 256 + b.toNat) v = v * 256 ^ p.length + read p := by
  induction p generalizing v with
  | nil => simp [read]
  | cons b p ih =>
      simp only [read, List.foldl_cons, List.length_cons] at ih ⊢
      rw [ih (v * 256 + b.toNat), ih (0 * 256 + b.toNat)]
      ring

@[simp]
theorem read_nil : read [] = 0 := rfl

theorem read_cons (b : UInt8) (p : List UInt8) :
    read (b :: p) = b.toNat * 256 ^ p.length + read p := by
  have h := foldl_read p (0 * 256 + b.toNat)
  simpa [read] using h

theorem read_append (p q : List UInt8) :
    read (p ++ q) = read p * 256 ^ q.length + read q := by
  have h := foldl_read q (read p)
  simpa [read, List.foldl_append] using h

theorem read_lt (p : List UInt8) : read p < 256 ^ p.length := by
  induction p with
  | nil => simp
  | cons b p ih =>
      have hb : b.toNat + 1 ≤ 256 := b.toNat_lt
      calc
        read (b :: p) = b.toNat * 256 ^ p.length + read p := read_cons b p
        _ < b.toNat * 256 ^ p.length + 256 ^ p.length := by omega
        _ = (b.toNat + 1) * 256 ^ p.length := by ring
        _ ≤ 256 * 256 ^ p.length := Nat.mul_le_mul_right _ hb
        _ = 256 ^ (b :: p).length := by rw [List.length_cons, pow_succ']

/-- Reading back what was written keeps the low-order octets. -/
theorem read_write (n v : ℕ) : read (write n v) = v % 256 ^ n := by
  induction n with
  | zero => simp [write, Nat.mod_one]
  | succ n ih =>
      have hbyte : (UInt8.ofNat (v / 256 ^ n)).toNat = v / 256 ^ n % 256 := by
        simp
      rw [write, read_cons, length_write, ih, hbyte, pow_succ, Nat.mod_mul]
      ring

theorem read_write_of_lt {n v : ℕ} (h : v < 256 ^ n) : read (write n v) = v := by
  rw [read_write, Nat.mod_eq_of_lt h]

/-- Byte strings of one length are determined by the numbers they denote. -/
theorem read_injective {p q : List UInt8} (hlen : p.length = q.length)
    (hread : read p = read q) : p = q := by
  induction p generalizing q with
  | nil => exact (List.length_eq_zero_iff.mp hlen.symm).symm
  | cons b p ih =>
      obtain _ | ⟨c, q⟩ := q
      · simp at hlen
      have hpq : p.length = q.length := by simpa using hlen
      have hp := read_lt p
      have hq := read_lt q
      rw [read_cons, read_cons, hpq] at hread
      rw [hpq] at hp
      have hpos : 0 < 256 ^ q.length := Nat.pow_pos (by norm_num)
      have hhigh : b.toNat = c.toNat := by
        have h := congrArg (· / 256 ^ q.length) hread
        simpa [Nat.add_div_of_dvd_right, Nat.mul_div_cancel _ hpos,
          Nat.div_eq_of_lt hp, Nat.div_eq_of_lt hq, Nat.mul_comm _ (256 ^ q.length),
          Nat.mul_add_div hpos] using h
      have hlow : read p = read q := by
        rw [hhigh] at hread
        omega
      rw [ih hpq hlow, UInt8.toNat_inj.mp hhigh]

/-- Writing at its own width the number a string denotes gives the string back. -/
theorem write_read (p : List UInt8) : write p.length (read p) = p :=
  read_injective (length_write _ _) (read_write_of_lt (read_lt p))

theorem write_injective {n v w : ℕ} (hv : v < 256 ^ n) (hw : w < 256 ^ n)
    (h : write n v = write n w) : v = w := by
  rw [← read_write_of_lt hv, ← read_write_of_lt hw, h]

/-! ## Fields of a byte string -/

theorem length_field {p : List UInt8} {off n : ℕ} (h : off + n ≤ p.length) :
    (field p off n).length = n := by
  simp [field]
  omega

theorem field_zero_length {p : List UInt8} {n : ℕ} (h : p.length = n) : field p 0 n = p := by
  simp [field, ← h]

/-- Adjacent fields join. -/
theorem field_append_field (p : List UInt8) (off m n : ℕ) :
    field p off m ++ field p (off + m) n = field p off (m + n) := by
  simp [field, List.take_add, List.drop_drop]

theorem field_append_left {p q : List UInt8} {off n : ℕ}
    (h : off + n ≤ p.length) : field (p ++ q) off n = field p off n := by
  rw [field, field, List.drop_append_of_le_length (by omega),
    List.take_append_of_le_length (by simp; omega)]

theorem field_append_right {p q : List UInt8} {off n k : ℕ}
    (hoff : off = p.length + k) : field (p ++ q) off n = field q k n := by
  subst hoff
  simp [field, List.drop_append, List.drop_eq_nil_of_le]

/-- A field that is written back is the field. -/
theorem write_read_field {p : List UInt8} {off n : ℕ} (h : off + n ≤ p.length) :
    write n (read (field p off n)) = field p off n := by
  have hwrite := write_read (field p off n)
  rwa [length_field h] at hwrite

theorem read_field_lt (p : List UInt8) (off n : ℕ) :
    read (field p off n) < 256 ^ n := by
  have hlen : (field p off n).length ≤ n := by
    simp [field]
  exact (read_lt _).trans_le (Nat.pow_le_pow_right (by norm_num) hlen)

end BigEndian
