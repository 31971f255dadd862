import StnChain.Support.BigEndian

/-!
# Rows of one width

A table is often stored as its rows one after the other, each of the same width.  A
`RowFormat` writes and reads one row; `RowFormat.Lawful` says that the two invert each
other, and `read_write` and `write_read` carry this to tables of any length.
-/

namespace FixedWidth

/-- How a row is written, and read at an offset. -/
structure RowFormat (α : Type) where
  width : ℕ
  put : α → List UInt8
  get : List UInt8 → ℕ → α

namespace RowFormat

variable {α : Type} (f : RowFormat α)

/-- The rows one after the other. -/
def write (rows : List α) : List UInt8 :=
  rows.flatMap f.put

/-- `count` rows from an offset on. -/
def read (p : List UInt8) : ℕ → ℕ → List α
  | _, 0 => []
  | off, count + 1 => f.get p off :: read p (off + f.width) count

/-- Writing and reading a row invert each other. -/
structure Lawful : Prop where
  length_put : ∀ row, (f.put row).length = f.width
  get_put : ∀ pre row post, f.get (pre ++ (f.put row ++ post)) pre.length = row
  put_get : ∀ p off, off + f.width ≤ p.length → f.put (f.get p off) = BigEndian.field p off f.width

variable {f}

@[simp]
theorem length_read (p : List UInt8) (off count : ℕ) : (f.read p off count).length = count := by
  induction count generalizing off with
  | zero => rfl
  | succ count ih => rw [read, List.length_cons, ih]

theorem Lawful.length_write (h : f.Lawful) (rows : List α) :
    (f.write rows).length = rows.length * f.width := by
  induction rows with
  | nil => rw [write, List.flatMap_nil, List.length_nil, List.length_nil, Nat.zero_mul]
  | cons row rows ih =>
      rw [write, List.flatMap_cons, List.length_append, h.length_put, List.length_cons,
        Nat.succ_mul, Nat.add_comm]
      exact congrArg (· + f.width) ih

/-- Rows are read where they were written. -/
theorem Lawful.read_write (h : f.Lawful) (pre : List UInt8) (rows : List α)
    (post : List UInt8) : f.read (pre ++ (f.write rows ++ post)) pre.length rows.length = rows := by
  induction rows generalizing pre with
  | nil => rfl
  | cons row rows ih =>
      have hrest := ih (pre ++ f.put row)
      have hlength : (pre ++ f.put row).length = pre.length + f.width := by
        rw [List.length_append, h.length_put]
      rw [hlength, List.append_assoc] at hrest
      rw [write, List.flatMap_cons, List.length_cons, read, List.append_assoc, h.get_put]
      exact congrArg (row :: ·) hrest

/-- Rows that are read are written as the octets they were read from. -/
theorem Lawful.write_read (h : f.Lawful) {p : List UInt8} {off count : ℕ}
    (hend : off + count * f.width ≤ p.length) :
    f.write (f.read p off count) = BigEndian.field p off (count * f.width) := by
  induction count generalizing off with
  | zero => rw [read, write, List.flatMap_nil, Nat.zero_mul, BigEndian.field, List.take_zero]
  | succ count ih =>
      rw [Nat.succ_mul, Nat.add_comm (count * f.width)] at hend ⊢
      have hrest : f.write (f.read p (off + f.width) count) =
          BigEndian.field p (off + f.width) (count * f.width) := ih (by omega)
      rw [read, write, List.flatMap_cons, h.put_get p off (by omega),
        ← BigEndian.field_append_field]
      exact congrArg (BigEndian.field p off f.width ++ ·) hrest

end RowFormat

end FixedWidth
