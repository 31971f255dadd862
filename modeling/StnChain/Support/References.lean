import Mathlib.Data.List.Nodup
import Mathlib.Logic.Function.Basic

/-!
# Reference counts

Objects counted in machine words.  A group of objects is raised one by one and, when the
whole cannot be completed, dropped one by one; `restored_iff` says that this leaves the
ledger as it was exactly when the objects dropped are the objects raised.
-/

namespace References

/-- The counts of some objects and the objects freed so far. -/
structure Ledger (κ : Type) where
  count : κ → UInt64
  freed : List κ

variable {κ : Type} [DecidableEq κ]

/-- The largest count. -/
def maxCount : UInt64 := 0xffffffffffffffff

namespace Ledger

/-- One more reference. -/
def raise (l : Ledger κ) (k : κ) : Ledger κ :=
  { l with count := Function.update l.count k (l.count k + 1) }

/-- One reference less; the last one frees the object. -/
def drop (l : Ledger κ) (k : κ) : Ledger κ where
  count := Function.update l.count k (l.count k - 1)
  freed := if l.count k - 1 = 0 then l.freed ++ [k] else l.freed

def raiseAll (l : Ledger κ) (ks : List κ) : Ledger κ :=
  ks.foldl raise l

def dropAll (l : Ledger κ) (ks : List κ) : Ledger κ :=
  ks.foldl drop l

/-- The object has a reference and another one can be counted. -/
def CanRaise (l : Ledger κ) (k : κ) : Prop :=
  l.count k ≠ 0 ∧ l.count k ≠ maxCount

instance (l : Ledger κ) (k : κ) : Decidable (l.CanRaise k) :=
  inferInstanceAs (Decidable (_ ∧ _))

variable {l : Ledger κ} {k : κ} {ks us : List κ}

theorem raiseAll_append (l : Ledger κ) (ks us : List κ) :
    l.raiseAll (ks ++ us) = (l.raiseAll ks).raiseAll us :=
  List.foldl_append

@[simp]
theorem freed_raiseAll (l : Ledger κ) (ks : List κ) : (l.raiseAll ks).freed = l.freed := by
  induction ks generalizing l with
  | nil => rfl
  | cons k ks ih => exact ih (l.raise k)

/-- Raising distinct objects raises each by one. -/
theorem count_raiseAll (hks : ks.Nodup) (k : κ) :
    (l.raiseAll ks).count k = if k ∈ ks then l.count k + 1 else l.count k := by
  induction ks generalizing l with
  | nil => rfl
  | cons j ks ih =>
      obtain ⟨hj, hks⟩ := List.nodup_cons.mp hks
      have hrest := ih (l := l.raise j) hks
      rw [show l.raiseAll (j :: ks) = (l.raise j).raiseAll ks from rfl, hrest]
      by_cases hkj : k = j
      · subst hkj
        simp [hj, raise]
      · simp [hkj, raise]

/-- Dropping distinct objects drops each by one. -/
theorem count_dropAll (hus : us.Nodup) (k : κ) :
    (l.dropAll us).count k = if k ∈ us then l.count k - 1 else l.count k := by
  induction us generalizing l with
  | nil => rfl
  | cons j us ih =>
      obtain ⟨hj, hus⟩ := List.nodup_cons.mp hus
      have hrest := ih (l := l.drop j) hus
      rw [show l.dropAll (j :: us) = (l.drop j).dropAll us from rfl, hrest]
      by_cases hkj : k = j
      · subst hkj
        simp [hj, drop]
      · simp [hkj, drop]

/-- Dropping distinct objects frees those whose last reference it was. -/
theorem freed_dropAll (hus : us.Nodup) :
    (l.dropAll us).freed = l.freed ++ us.filter fun k => l.count k - 1 = 0 := by
  induction us generalizing l with
  | nil => exact (List.append_nil _).symm
  | cons j us ih =>
      obtain ⟨hj, hus⟩ := List.nodup_cons.mp hus
      have hrest : us.filter (fun k => (l.drop j).count k - 1 = 0) =
          us.filter fun k => l.count k - 1 = 0 := by
        apply List.filter_congr
        intro k hk
        have hkj : k ≠ j := fun heq => hj (heq ▸ hk)
        simp [drop, hkj]
      rw [show l.dropAll (j :: us) = (l.drop j).dropAll us from rfl, ih hus, hrest,
        List.filter_cons]
      by_cases hlast : l.count j - 1 = 0
      · simp [drop, hlast]
      · simp [drop, hlast]

/-- Objects that were raised and dropped again are as before, and no others are, so the
ledger is restored exactly when what is dropped is what was raised. -/
theorem restored_iff (hks : ks.Nodup) (hus : us.Nodup) (hraised : ∀ k ∈ ks, l.CanRaise k) :
    (l.raiseAll ks).dropAll us = l ↔ ∀ k, k ∈ ks ↔ k ∈ us := by
  constructor
  · intro heq k
    have hcount : ((l.raiseAll ks).dropAll us).count k = l.count k := by
      rw [heq]
    rw [count_dropAll hus, count_raiseAll hks] at hcount
    by_cases hk : k ∈ ks
    · by_cases hu : k ∈ us
      · simp [hk, hu]
      · rw [if_neg hu, if_pos hk] at hcount
        simp at hcount
    · by_cases hu : k ∈ us
      · rw [if_pos hu, if_neg hk] at hcount
        have hnext := congrArg (· + 1) hcount
        simp [UInt64.sub_add_cancel] at hnext
      · simp [hk, hu]
  · intro hsame
    have hfreed : ((l.raiseAll ks).dropAll us).freed = l.freed := by
      rw [freed_dropAll hus, freed_raiseAll]
      refine (congrArg (l.freed ++ ·) (List.filter_eq_nil_iff.mpr ?_)).trans (List.append_nil _)
      intro k hk
      have hks' := (hsame k).mpr hk
      rw [count_raiseAll hks, if_pos hks', UInt64.add_sub_cancel, decide_eq_true_eq]
      exact (hraised k hks').1
    have hcount : ((l.raiseAll ks).dropAll us).count = l.count := by
      funext k
      rw [count_dropAll hus, count_raiseAll hks]
      by_cases hk : k ∈ ks
      · rw [if_pos ((hsame k).mp hk), if_pos hk, UInt64.add_sub_cancel]
      · rw [if_neg (fun hu => hk ((hsame k).mpr hu)), if_neg hk]
    calc
      (l.raiseAll ks).dropAll us =
          ⟨((l.raiseAll ks).dropAll us).count, ((l.raiseAll ks).dropAll us).freed⟩ := rfl
      _ = l := by rw [hcount, hfreed]

end Ledger

end References
