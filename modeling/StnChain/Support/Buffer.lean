import Mathlib.Data.List.Basic

/-!
# Writes into a buffer

A buffer is the list of its cells.  `overwrite` replaces cells from an offset on, and
`Within` says that a change stays in the first cells of a buffer.
-/

namespace Buffer

variable {α : Type}

/-- The buffer with some cells written from an offset on. -/
def overwrite (buffer : List α) (offset : ℕ) (xs : List α) : List α :=
  buffer.take offset ++ xs ++ buffer.drop (offset + xs.length)

/-- A change of a buffer that leaves every cell from `n` on. -/
structure Within (n : ℕ) (before after : List α) : Prop where
  length : after.length = before.length
  beyond : after.drop n = before.drop n

/-- Several writes, each an offset and the cells written there, one after another. -/
def writeAll (buffer : List α) (writes : List (ℕ × List α)) : List α :=
  writes.foldl (fun buffer write => overwrite buffer write.1 write.2) buffer

variable {buffer before after xs : List α} {offset n : ℕ}

theorem length_overwrite (h : offset + xs.length ≤ buffer.length) :
    (overwrite buffer offset xs).length = buffer.length := by
  simp only [overwrite, List.length_append, List.length_take, List.length_drop]
  omega

/-- A write behind the last cell appends. -/
theorem overwrite_length (xs : List α) (x : α) : overwrite xs xs.length [x] = xs ++ [x] := by
  simp [overwrite]

theorem overwrite_one {i : ℕ} (hi : i < xs.length) (x : α) :
    overwrite xs i [x] = xs.set i x := by
  rw [List.set_eq_take_append_cons_drop, if_pos hi]
  simp [overwrite]

/-- What is written at the front is read back from the front. -/
theorem take_overwrite_zero (buffer xs : List α) :
    (overwrite buffer 0 xs).take xs.length = xs := by
  simp [overwrite]

/-- A write over a part of the same length replaces that part. -/
theorem overwrite_part (front part back xs : List α) (h : part.length = xs.length) :
    overwrite (front ++ (part ++ back)) front.length xs = front ++ (xs ++ back) := by
  rw [overwrite, List.take_left' rfl, ← List.drop_drop, List.drop_left' rfl, List.drop_left' h,
    List.append_assoc]

theorem writeAll_append (buffer : List α) (writes later : List (ℕ × List α)) :
    writeAll buffer (writes ++ later) = writeAll (writeAll buffer writes) later :=
  List.foldl_append

/-- Parts of one width written behind each other, from the cell behind `front` on. -/
theorem writeAll_parts {width k : ℕ} (front rest : List α) (parts : List (List α))
    (hfront : front.length = offset + k * width) (hwidth : ∀ part ∈ parts, part.length = width) :
    writeAll (front ++ rest) ((parts.zipIdx k).map fun part => (offset + part.2 * width, part.1)) =
      front ++ (parts.flatten ++ rest.drop (parts.length * width)) := by
  induction parts generalizing front rest k with
  | nil => simp [writeAll]
  | cons part parts ih =>
      have hpart : part.length = width := hwidth part (List.mem_cons_self ..)
      have hfirst : overwrite (front ++ rest) (offset + k * width) part =
          (front ++ part) ++ rest.drop width := by
        rw [← hfront, overwrite, List.take_left' rfl, ← List.drop_drop, List.drop_left' rfl, hpart]
      have hnext : (front ++ part).length = offset + (k + 1) * width := by
        rw [List.length_append, hfront, hpart, Nat.add_assoc, ← Nat.succ_mul]
      have hrest := ih (front ++ part) (rest.drop width) hnext
        fun part' hpart' => hwidth part' (List.mem_cons_of_mem _ hpart')
      rw [List.zipIdx_cons, List.map_cons, writeAll, List.foldl_cons, hfirst]
      rw [writeAll] at hrest
      rw [hrest, List.drop_drop, List.flatten_cons, List.length_cons, Nat.succ_mul,
        Nat.add_comm width]
      simp only [List.append_assoc]

/-- A header written before a body that was written behind it. -/
theorem overwrite_header_body (buffer header body : List α)
    (h : header.length ≤ buffer.length) :
    overwrite (overwrite buffer header.length body) 0 header =
      overwrite buffer 0 (header ++ body) := by
  have htake : (buffer.take header.length).length = header.length := by
    rw [List.length_take, Nat.min_eq_left h]
  simp only [overwrite, List.take_zero, List.nil_append, Nat.zero_add, List.length_append,
    List.append_assoc]
  rw [List.drop_left' htake]

/-- Two writes behind each other are one. -/
theorem overwrite_overwrite_append (xs ys : List α) (h : offset ≤ buffer.length) :
    overwrite (overwrite buffer offset xs) (offset + xs.length) ys =
      overwrite buffer offset (xs ++ ys) := by
  have htake : (buffer.take offset ++ xs).length = offset + xs.length := by
    rw [List.length_append, List.length_take, Nat.min_eq_left h]
  simp only [overwrite, List.length_append]
  rw [List.take_left' htake, ← List.drop_drop (i := ys.length), List.drop_left' htake,
    List.drop_drop]
  simp only [List.append_assoc, Nat.add_assoc]

theorem Within.refl (n : ℕ) (buffer : List α) : Within n buffer buffer :=
  ⟨rfl, rfl⟩

theorem Within.trans {middle : List α} (h : Within n before middle) (h' : Within n middle after) :
    Within n before after :=
  ⟨h'.length.trans h.length, h'.beyond.trans h.beyond⟩

theorem Within.mono {m : ℕ} (h : Within n before after) (hle : n ≤ m) : Within m before after := by
  refine ⟨h.length, ?_⟩
  obtain ⟨k, rfl⟩ := Nat.exists_eq_add_of_le hle
  rw [← List.drop_drop, ← List.drop_drop, h.beyond]

/-- A change of the cells behind the first `k`. -/
theorem Within.behind {k : ℕ} (h : Within n (before.drop k) after) (hk : k ≤ before.length) :
    Within (k + n) before (before.take k ++ after) := by
  have htake : (before.take k).length = k := by
    rw [List.length_take, Nat.min_eq_left hk]
  refine ⟨?_, ?_⟩
  · rw [List.length_append, htake, h.length, List.length_drop]
    omega
  · rw [← List.drop_drop, List.drop_left' htake, h.beyond, List.drop_drop]

/-- A write that ends before `n` stays within `n`. -/
theorem Within.overwrite (hend : offset + xs.length ≤ n) (hsize : n ≤ buffer.length) :
    Within n buffer (overwrite buffer offset xs) := by
  refine ⟨length_overwrite (Nat.le_trans hend hsize), ?_⟩
  have htake : (buffer.take offset ++ xs).length = offset + xs.length := by
    rw [List.length_append, List.length_take]
    omega
  obtain ⟨k, rfl⟩ := Nat.exists_eq_add_of_le hend
  rw [Buffer.overwrite, ← List.drop_drop, List.drop_left' htake, List.drop_drop]

/-- Writes that all end before `n` stay within `n`. -/
theorem Within.writeAll {writes : List (ℕ × List α)}
    (hend : ∀ write ∈ writes, write.1 + write.2.length ≤ n) (hsize : n ≤ buffer.length) :
    Within n buffer (writeAll buffer writes) := by
  induction writes generalizing buffer with
  | nil => exact Within.refl n buffer
  | cons write writes ih =>
      have hfirst : Within n buffer (Buffer.overwrite buffer write.1 write.2) :=
        Within.overwrite (hend write (List.mem_cons_self ..)) hsize
      apply hfirst.trans
      apply ih
      · intro w hw
        exact hend w (List.mem_cons_of_mem _ hw)
      · rw [hfirst.length]
        exact hsize

end Buffer
