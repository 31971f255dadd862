import Mathlib.Data.List.Nodup
import Mathlib.Order.Interval.Finset.Nat
import Mathlib.Tactic.Common

/-!
# Regions of a shared array

Entries share one array of slots: an entry owns a region of it, given by an offset and a
size, and the next region starts where the used slots end.  Regions laid out so are
pairwise disjoint, `Packed.disjoint`, and stay so when an entry is replaced by one that
owns the same region, `Packed.set`.
-/

namespace Regions

variable {ε β : Type*} (offset size : ε → ℕ)

/-- The slots an entry owns. -/
def region (e : ε) : Finset ℕ :=
  Finset.Ico (offset e) (offset e + size e)

/-- The regions lie one after the other among the used slots. -/
structure Packed (entries : List ε) (used : ℕ) : Prop where
  ordered : entries.Pairwise fun a b => offset a + size a ≤ offset b
  within : ∀ e ∈ entries, offset e + size e ≤ used

/-- Replacing an entry keeps what the old and the new entry agree on. -/
theorem map_set_of_eq {f : ε → β} {entries : List ε} {i : ℕ} {e e' : ε}
    (he : entries[i]? = some e) (heq : f e' = f e) :
    (entries.set i e').map f = entries.map f := by
  obtain ⟨hi, rfl⟩ := List.getElem?_eq_some_iff.mp he
  rw [List.map_set, heq, ← List.getElem_map f (h := by simpa using hi)]
  exact List.set_getElem_self _

variable {offset size} {entries : List ε} {used : ℕ}

theorem mem_region {e : ε} {slot : ℕ} :
    slot ∈ region offset size e ↔ offset e ≤ slot ∧ slot < offset e + size e :=
  Finset.mem_Ico

theorem Packed.nil (used : ℕ) : Packed offset size [] used :=
  ⟨List.Pairwise.nil, fun _ he => absurd he List.not_mem_nil⟩

/-- A region that starts where the used slots end is taken into use. -/
theorem Packed.snoc (h : Packed offset size entries used) {e : ε} (he : offset e = used) :
    Packed offset size (entries ++ [e]) (used + size e) := by
  constructor
  · rw [List.pairwise_append]
    refine ⟨h.ordered, List.pairwise_singleton _ _, ?_⟩
    intro a ha b hb
    obtain rfl := List.mem_singleton.mp hb
    rw [he]
    exact h.within a ha
  · intro a ha
    rcases List.mem_append.mp ha with ha | ha
    · exact (h.within a ha).trans (Nat.le_add_right _ _)
    · obtain rfl := List.mem_singleton.mp ha
      rw [he]

/-- An entry may be replaced by one that owns the same region. -/
theorem Packed.set (h : Packed offset size entries used) {i : ℕ} {e e' : ε}
    (he : entries[i]? = some e) (hoffset : offset e' = offset e) (hsize : size e' = size e) :
    Packed offset size (entries.set i e') used := by
  have hmap : (entries.set i e').map (fun a => (offset a, size a)) =
      entries.map fun a => (offset a, size a) :=
    map_set_of_eq he (by rw [hoffset, hsize])
  constructor
  · have hordered : (entries.map fun a => (offset a, size a)).Pairwise
        fun a b => a.1 + a.2 ≤ b.1 := List.pairwise_map.mpr h.ordered
    rw [← hmap] at hordered
    exact List.pairwise_map.mp hordered
  · intro a ha
    rcases List.mem_or_eq_of_mem_set ha with ha | rfl
    · exact h.within a ha
    · rw [hoffset, hsize]
      exact h.within e (List.mem_of_getElem? he)

/-- Different entries own disjoint regions. -/
theorem Packed.disjoint (h : Packed offset size entries used) {i j : ℕ} {a b : ε}
    (hij : i ≠ j) (ha : entries[i]? = some a) (hb : entries[j]? = some b) :
    Disjoint (region offset size a) (region offset size b) := by
  obtain ⟨hi, rfl⟩ := List.getElem?_eq_some_iff.mp ha
  obtain ⟨hj, rfl⟩ := List.getElem?_eq_some_iff.mp hb
  have hordered := List.pairwise_iff_getElem.mp h.ordered
  rw [Finset.disjoint_left]
  intro slot hslot hslot'
  rw [mem_region] at hslot hslot'
  rcases Nat.lt_or_gt_of_ne hij with hlt | hgt
  · have := hordered i j hi hj hlt
    omega
  · have := hordered j i hj hi hgt
    omega

end Regions
