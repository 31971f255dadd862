import Mathlib.Data.List.Basic
import Mathlib.Logic.Function.Basic

/-!
# Allocations

Memory is a set of blocks of cells, each allocated once and freed at most once, and a
pointer is an offset into one of them.  What a block holds does not depend on the other
blocks, so a reader of one block is not affected by allocations and by freeing others.
-/

namespace Allocations

/-- A position in a block. -/
structure Pointer where
  block : ℕ
  offset : ℕ
  deriving DecidableEq, Repr

/-- The position `n` cells further on. -/
def Pointer.advance (p : Pointer) (n : ℕ) : Pointer :=
  ⟨p.block, p.offset + n⟩

/-- The blocks in use, and the name of the next one. -/
structure Memory (α : Type) where
  blocks : ℕ → Option (List α)
  next : ℕ

variable {α : Type}

namespace Memory

/-- Memory before any allocation. -/
def empty : Memory α :=
  ⟨fun _ => none, 0⟩

/-- A new block, filled at once. -/
def allocate (m : Memory α) (cells : List α) : ℕ × Memory α :=
  (m.next, ⟨Function.update m.blocks m.next (some cells), m.next + 1⟩)

/-- The memory without a block. -/
def free (m : Memory α) (block : ℕ) : Memory α :=
  { m with blocks := Function.update m.blocks block none }

/-- The memory without the block a pointer names, if there is one. -/
def release (m : Memory α) : Option ℕ → Memory α
  | none => m
  | some block => m.free block

/-- The cells from a position on; `none` when some of them are not in the block, or the
block is not in use. -/
def read (m : Memory α) (p : Pointer) (n : ℕ) : Option (List α) :=
  match m.blocks p.block with
  | none => none
  | some cells =>
      if p.offset + n ≤ cells.length then some ((cells.drop p.offset).take n) else none

/-- Blocks that have not been allocated are not in use. -/
def Fresh (m : Memory α) : Prop :=
  ∀ block ≥ m.next, m.blocks block = none

variable {m : Memory α} {cells xs : List α} {p : Pointer} {b n : ℕ}

theorem fresh_empty : (empty : Memory α).Fresh :=
  fun _ _ => rfl

theorem Fresh.blocks_next (h : m.Fresh) : m.blocks m.next = none :=
  h _ (Nat.le_refl _)

theorem Fresh.ne_next (h : m.Fresh) (hb : m.blocks b = some cells) : b ≠ m.next := by
  intro heq
  rw [heq, h.blocks_next] at hb
  cases hb

theorem Fresh.allocate (h : m.Fresh) (cells : List α) : (m.allocate cells).2.Fresh := by
  intro block hblock
  have hlater : m.next + 1 ≤ block := hblock
  show Function.update m.blocks m.next (some cells) block = none
  rw [Function.update_of_ne (by omega)]
  exact h block (by omega)

theorem Fresh.free (h : m.Fresh) (b : ℕ) : (m.free b).Fresh := by
  intro block hblock
  by_cases heq : block = b
  · rw [heq]
    exact Function.update_self b none m.blocks
  · show Function.update m.blocks b none block = none
    rw [Function.update_of_ne heq]
    exact h block hblock

theorem Fresh.release (h : m.Fresh) (b : Option ℕ) : (m.release b).Fresh := by
  cases b with
  | none => exact h
  | some b => exact h.free b

@[simp] theorem allocate_fst (m : Memory α) (cells : List α) : (m.allocate cells).1 = m.next := rfl

@[simp] theorem blocks_allocate_next (m : Memory α) (cells : List α) :
    (m.allocate cells).2.blocks m.next = some cells :=
  Function.update_self ..

theorem blocks_allocate (h : b ≠ m.next) (cells : List α) :
    (m.allocate cells).2.blocks b = m.blocks b :=
  Function.update_of_ne h ..

theorem blocks_free {b' : ℕ} (h : b ≠ b') : (m.free b').blocks b = m.blocks b :=
  Function.update_of_ne h ..

theorem blocks_release {b' : Option ℕ} (h : b' ≠ some b) :
    (m.release b').blocks b = m.blocks b := by
  cases b' with
  | none => rfl
  | some b' => exact blocks_free fun heq => h (by rw [heq])

theorem read_of_blocks (hb : m.blocks p.block = some cells) (hn : p.offset + n ≤ cells.length) :
    m.read p n = some ((cells.drop p.offset).take n) := by
  simp only [read, hb, if_pos hn]

/-- A part of what is read is read from further on. -/
theorem read_advance {k l : ℕ} (h : m.read p n = some xs) (hk : k + l ≤ n) :
    m.read (p.advance k) l = some ((xs.drop k).take l) := by
  simp only [read] at h
  split at h
  · cases h
  next cells hcells =>
  split at h
  · next hn =>
      obtain rfl := Option.some.inj h
      have hl : (p.advance k).offset + l ≤ cells.length := by
        simp only [Pointer.advance]
        omega
      rw [read_of_blocks (p := p.advance k) hcells hl]
      simp only [Pointer.advance, List.drop_take, List.drop_drop, List.take_take]
      rw [Nat.min_eq_left (by omega)]
  · cases h

end Memory

end Allocations
