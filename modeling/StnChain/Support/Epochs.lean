import Mathlib.Data.List.Basic
import Mathlib.Tactic.Ring

/-!
# Epochs of a growing list

A log divided into epochs of a fixed length keeps in memory only the entries of
the epoch it is in: the entries since the last index that is a multiple of the
epoch length.  The lemmas say how that window moves when an entry is appended, how
long it is, and that it is the last full epoch when one has just been completed.
-/

namespace Epochs

variable {α : Type*} {n : ℕ}

/-- The entries since the last index that is a multiple of `n`. -/
def current (n : ℕ) (l : List α) : List α :=
  l.drop ((l.length - 1) / n * n)

@[simp]
theorem current_nil : current n ([] : List α) = [] :=
  List.drop_nil

theorem length_current {l : List α} (hl : l ≠ []) :
    (current n l).length = (l.length - 1) % n + 1 := by
  have hpos := List.length_pos_of_ne_nil hl
  have hsplit := Nat.div_add_mod' (l.length - 1) n
  rw [current, List.length_drop]
  omega

theorem length_current_le (hn : 0 < n) (l : List α) : (current n l).length ≤ n := by
  by_cases hl : l = []
  · rw [hl, current_nil]
    exact Nat.zero_le _
  · have hlt := Nat.mod_lt (l.length - 1) hn
    rw [length_current hl]
    omega

theorem current_ne_nil {l : List α} (hl : l ≠ []) : current n l ≠ [] := by
  intro hnil
  have hlen := length_current (n := n) hl
  rw [hnil] at hlen
  exact Nat.succ_ne_zero _ hlen.symm

/-- An entry opens an epoch or joins the current one. -/
theorem current_append_singleton (hn : 0 < n) (l : List α) (a : α) :
    current n (l ++ [a]) = (if l.length % n = 0 then [] else current n l) ++ [a] := by
  have hlen : (l ++ [a]).length - 1 = l.length := by simp
  have hsplit := Nat.div_add_mod' l.length n
  rw [current, hlen]
  by_cases hzero : l.length % n = 0
  · have hdrop : l.length / n * n = l.length := by omega
    rw [if_pos hzero, hdrop, List.drop_left, List.nil_append]
  · have hsame : (l.length - 1) / n = l.length / n := by
      have hlt := Nat.mod_lt l.length hn
      apply Nat.div_eq_of_lt_le
      · omega
      · rw [Nat.succ_mul]
        omega
    rw [if_neg hzero, current, hsame, List.drop_append_of_le_length (by omega)]

theorem getLast?_current {l : List α} : (current n l).getLast? = l.getLast? := by
  by_cases hl : l = []
  · rw [hl, current_nil]
  · have hpos := List.length_pos_of_ne_nil hl
    have hlen := length_current (n := n) hl
    have hsplit := Nat.div_add_mod' (l.length - 1) n
    rw [current, List.getLast?_drop, if_neg (by omega)]

/-- When an epoch has just been completed, the window is that epoch. -/
theorem current_of_mod_eq_zero {l : List α} (hl : l ≠ []) (hmod : l.length % n = 0) :
    current n l = l.drop (l.length - n) ∧ (current n l).length = n := by
  have hpos := List.length_pos_of_ne_nil hl
  obtain ⟨k, hk⟩ := Nat.dvd_of_mod_eq_zero hmod
  have hn : 0 < n := by
    rw [hk] at hpos
    exact Nat.pos_of_mul_pos_right hpos
  have hk' : 0 < k := by
    rw [hk] at hpos
    exact Nat.pos_of_mul_pos_left hpos
  have hdiv : (l.length - 1) / n = k - 1 := by
    obtain ⟨k, rfl⟩ : ∃ j, k = j + 1 := ⟨k - 1, by omega⟩
    apply Nat.div_eq_of_lt_le
    · rw [hk, Nat.add_sub_cancel, Nat.mul_succ, Nat.mul_comm]
      omega
    · rw [hk, Nat.add_sub_cancel, Nat.mul_comm]
      exact Nat.sub_one_lt (by rw [← Nat.mul_comm, ← hk]; omega)
  have hdrop : (l.length - 1) / n * n = l.length - n := by
    rw [hdiv, Nat.sub_mul, Nat.one_mul, hk, Nat.mul_comm]
  refine ⟨by rw [current, hdrop], ?_⟩
  rw [current, hdrop, List.length_drop]
  have hle : n ≤ l.length := by
    rw [hk]
    exact Nat.le_mul_of_pos_right n hk'
  omega

end Epochs
