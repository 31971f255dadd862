import StnChain.Support.Buffer

/-!
# Tables in fixed storage

A table keeps its entries in the first cells of an array of fixed length.  Entries are
changed in place, and one is put between others by moving those behind it up by one cell.
`Performs` compares an operation on stored tables, which has changed its store when it
fails or not, with a function on the values they hold.
-/

/-- An array of cells of which the first `count` hold the entries. -/
structure Slots (α : Type) where
  cells : List α
  count : ℕ

namespace Slots

variable {α : Type}

/-- The entries a table holds. -/
def entries (s : Slots α) : List α :=
  s.cells.take s.count

/-- The entries fit the array. -/
def Fits (s : Slots α) : Prop :=
  s.count ≤ s.cells.length

instance (s : Slots α) : Decidable s.Fits :=
  inferInstanceAs (Decidable (s.count ≤ s.cells.length))

/-- Change the entry of one cell. -/
def modifyAt (s : Slots α) (i : ℕ) (f : α → α) : Slots α :=
  { s with cells := s.cells.modify i f }

/-- Move the entries from `i` on up by one cell and write an entry into the cell they leave. -/
def insertAt (s : Slots α) (i : ℕ) (a : α) : Slots α where
  cells := Buffer.overwrite (Buffer.overwrite s.cells (i + 1) (s.entries.drop i)) i [a]
  count := s.count + 1

/-- Write an entry behind the last. -/
def push (s : Slots α) (a : α) : Slots α where
  cells := Buffer.overwrite s.cells s.count [a]
  count := s.count + 1

/-- Write the entries of another table over the first cells. -/
def copyFrom (s t : Slots α) : Slots α :=
  { s with cells := Buffer.overwrite s.cells 0 t.entries }

variable {s t : Slots α} {i : ℕ} {a : α} {f : α → α}

theorem length_entries (h : s.Fits) : s.entries.length = s.count := by
  rw [entries, List.length_take, Nat.min_eq_left h]

@[simp]
theorem length_modifyAt : (s.modifyAt i f).cells.length = s.cells.length :=
  List.length_modify _ _ _

theorem entries_modifyAt : (s.modifyAt i f).entries = s.entries.modify i f := by
  rw [entries, entries, modifyAt, List.take_modify]

theorem Fits.modifyAt (h : s.Fits) : (s.modifyAt i f).Fits := by
  rw [Fits, length_modifyAt]
  exact h

/-- A table with a free cell, cut at an entry. -/
theorem cells_eq (hroom : s.count < s.cells.length) (i : ℕ) :
    ∃ x rest, s.cells = s.entries.take i ++ (s.entries.drop i ++ x :: rest) := by
  refine ⟨s.cells[s.count], s.cells.drop (s.count + 1), ?_⟩
  rw [← List.append_assoc, List.take_append_drop, List.getElem_cons_drop, entries,
    List.take_append_drop]

theorem insertAt_cells (hroom : s.count < s.cells.length) (hi : i ≤ s.count) :
    ∃ rest, (s.insertAt i a).cells = s.entries.take i ++ a :: (s.entries.drop i ++ rest) ∧
      (s.insertAt i a).cells.length = s.cells.length := by
  obtain ⟨x, rest, hcells⟩ := cells_eq hroom i
  have hfits : s.entries.length = s.count := length_entries (Nat.le_of_lt hroom)
  have hfront : (s.entries.take i).length = i := by
    rw [List.length_take, hfits, Nat.min_eq_left hi]
  have hback : (s.entries.drop i).length = s.count - i := by rw [List.length_drop, hfits]
  have hlength := congrArg List.length hcells
  simp only [List.length_append, List.length_cons, hfront, hback] at hlength
  have hmoved : Buffer.overwrite s.cells (i + 1) (s.entries.drop i) =
      s.cells.take (i + 1) ++ (s.entries.drop i ++ rest) := by
    have hbehind : s.cells.drop (i + 1 + (s.entries.drop i).length) = rest := by
      rw [hcells, ← List.append_assoc, List.take_append_drop, hback,
        show i + 1 + (s.count - i) = s.entries.length + 1 by omega, ← List.drop_drop,
        List.drop_left, List.drop_succ_cons, List.drop_zero]
    rw [Buffer.overwrite, hbehind, List.append_assoc]
  have hfirst : (s.cells.take (i + 1)).length = i + 1 := by
    rw [List.length_take]
    omega
  have hwritten : (s.insertAt i a).cells =
      s.entries.take i ++ a :: (s.entries.drop i ++ rest) := by
    have htake : (s.cells.take (i + 1) ++ (s.entries.drop i ++ rest)).take i =
        s.entries.take i := by
      rw [List.take_append_of_le_length (by omega), List.take_take, entries, List.take_take]
      congr 1
      omega
    have hdrop : (s.cells.take (i + 1) ++ (s.entries.drop i ++ rest)).drop (i + 1) =
        s.entries.drop i ++ rest := List.drop_left' hfirst
    rw [insertAt, hmoved, Buffer.overwrite, htake, List.length_singleton, hdrop,
      List.append_assoc, List.singleton_append]
  refine ⟨rest, hwritten, ?_⟩
  rw [hwritten]
  simp only [List.length_append, List.length_cons, hfront, hback]
  omega

/-- Inserting in place puts the entry between those before and those behind. -/
theorem entries_insertAt (hroom : s.count < s.cells.length) (hi : i ≤ s.count) :
    (s.insertAt i a).entries = s.entries.take i ++ a :: s.entries.drop i := by
  obtain ⟨rest, hcells, -⟩ := insertAt_cells (a := a) hroom hi
  have hfits : s.entries.length = s.count := length_entries (Nat.le_of_lt hroom)
  have hlength : (s.entries.take i ++ a :: s.entries.drop i).length = s.count + 1 := by
    simp only [List.length_append, List.length_cons, List.length_take, List.length_drop, hfits]
    omega
  rw [entries, hcells, ← List.cons_append, ← List.append_assoc]
  exact List.take_left' hlength

theorem length_insertAt (hroom : s.count < s.cells.length) (hi : i ≤ s.count) :
    (s.insertAt i a).cells.length = s.cells.length := by
  obtain ⟨-, -, hlength⟩ := insertAt_cells (a := a) hroom hi
  exact hlength

theorem push_eq (hroom : s.count < s.cells.length) : s.push a = s.insertAt s.count a := by
  have hfits : s.entries.length = s.count := length_entries (Nat.le_of_lt hroom)
  have hnone : s.entries.drop s.count = [] := List.drop_of_length_le (Nat.le_of_eq hfits)
  have hsame : Buffer.overwrite s.cells (s.count + 1) [] = s.cells := by
    rw [Buffer.overwrite, List.append_nil, List.length_nil, Nat.add_zero, List.take_append_drop]
  rw [push, insertAt, hnone, hsame]

theorem entries_push (hroom : s.count < s.cells.length) :
    (s.push a).entries = s.entries ++ [a] := by
  have hfits : s.entries.length = s.count := length_entries (Nat.le_of_lt hroom)
  rw [push_eq hroom, entries_insertAt hroom (Nat.le_refl _),
    List.take_of_length_le (Nat.le_of_eq hfits), List.drop_of_length_le (Nat.le_of_eq hfits)]

theorem length_push (hroom : s.count < s.cells.length) :
    (s.push a).cells.length = s.cells.length := by
  rw [push_eq hroom, length_insertAt hroom (Nat.le_refl _)]

/-- The entries copied are read back from the first cells. -/
theorem take_copyFrom (ht : t.Fits) : (s.copyFrom t).cells.take t.count = t.entries := by
  have h := Buffer.take_overwrite_zero s.cells t.entries
  rwa [length_entries ht] at h

theorem length_copyFrom (ht : t.Fits) (h : t.count ≤ s.cells.length) :
    (s.copyFrom t).cells.length = s.cells.length :=
  Buffer.length_overwrite (by rw [Nat.zero_add, length_entries ht]; exact h)

end Slots

/-! ## Operations on stored values -/

section Performs

variable {ε σ τ : Type}

/-- An operation ends in a store that holds the value, or fails with the value's error
and leaves the store. -/
def Performs (view : τ → σ) (s : τ) (value : Except ε σ) : Except ε Unit × τ → Prop
  | (.ok (), s') => value = .ok (view s')
  | (.error e, s') => value = .error e ∧ s' = s

/-- An operation that performs succeeds with its function or fails with it. -/
theorem Performs.cases {view : τ → σ} {s : τ} {value : Except ε σ}
    {outcome : Except ε Unit × τ} (h : Performs view s value outcome) :
    (∃ s', outcome = (.ok (), s') ∧ value = .ok (view s')) ∨
      ∃ e, outcome = (.error e, s) ∧ value = .error e := by
  match outcome, h with
  | (.ok (), s'), h => exact .inl ⟨s', rfl, h⟩
  | (.error e, s'), h =>
      obtain ⟨hvalue, rfl⟩ := h
      exact .inr ⟨e, rfl, hvalue⟩

end Performs
