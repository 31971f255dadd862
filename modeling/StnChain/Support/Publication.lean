import Mathlib.Data.List.Basic
import Mathlib.Order.Lattice

/-!
# Publication by renaming

A file is replaced by writing the new content under a second name, forcing it to the
medium and renaming it over the first.  The process may be killed between any two of
these operations, and a loss of power undoes what has not reached the medium.  At every
point of every such run the first name shows content that was written as a whole.
-/

namespace Publication

variable {β : Type*}

/-! ## Disks -/

/-- A file: its content, and whether the content has reached the medium. -/
structure File (β : Type*) where
  content : List β
  synced : Bool
  deriving DecidableEq, Repr

/-- Two names of a directory.  `past` is what the first name has shown before, since the
directory itself last reached the medium. -/
structure Disk (β : Type*) where
  target : Option (File β)
  staged : Option (File β)
  past : List (Option (File β))
  deriving DecidableEq, Repr

/-- An operation on the two names. -/
inductive Operation (β : Type*)
  | create
  | write (xs : List β)
  | sync
  | rename
  | remove
  deriving DecidableEq, Repr

/-- The effect of an operation that succeeds. -/
def Disk.apply (d : Disk β) : Operation β → Disk β
  | .create => { d with staged := some ⟨[], false⟩ }
  | .write xs => { d with staged := d.staged.map fun f => ⟨f.content ++ xs, false⟩ }
  | .sync => { d with staged := d.staged.map fun f => { f with synced := true } }
  | .rename =>
      match d.staged with
      | none => d
      | some f => ⟨some f, none, d.target :: d.past⟩
  | .remove => { d with staged := none }

/-- The effect of operations one after another. -/
def Disk.perform (d : Disk β) (operations : List (Operation β)) : Disk β :=
  operations.foldl Disk.apply d

/-- What a loss of power decides: which of its files the first name still shows, what a
file shows whose content was not forced to the medium, and what the second name shows. -/
structure Loss (β : Type*) where
  shown : ℕ
  junk : List β
  staged : Option (File β)

/-- The disk found after a loss of power. -/
def Disk.lose (d : Disk β) (l : Loss β) : Disk β :=
  let shown := (d.target :: d.past).getD l.shown d.target
  { target := shown.map fun f => if f.synced then f else ⟨l.junk, true⟩
    staged := l.staged
    past := [] }

/-! ## Replacements -/

/-- The operations of a replacement whose content is written in parts. -/
def replacement (parts : List (List β)) : List (Operation β) :=
  .create :: (parts.map .write ++ [.sync, .rename])

/-- The operations of a replacement that does not get as far as renaming. -/
inductive Attempt (xs : List β) : List (Operation β) → Prop
  | stopped (parts : List (List β)) (k : ℕ) (hparts : parts.flatten = xs)
      (hk : k < (replacement parts).length) : Attempt xs ((replacement parts).take k)
  | undone (parts : List (List β)) (k : ℕ) (hparts : parts.flatten = xs)
      (hk : k < (replacement parts).length) : Attempt xs ((replacement parts).take k ++ [.remove])

variable {d : Disk β} {xs : List β} {operations : List (Operation β)}

/-- Every operation but renaming leaves what the first name shows. -/
theorem perform_keeps (h : Operation.rename ∉ operations) :
    (d.perform operations).target = d.target ∧ (d.perform operations).past = d.past := by
  induction operations generalizing d with
  | nil => exact ⟨rfl, rfl⟩
  | cons o rest ih =>
      have hfirst : (d.apply o).target = d.target ∧ (d.apply o).past = d.past := by
        cases o with
        | rename => exact absurd List.mem_cons_self h
        | create => exact ⟨rfl, rfl⟩
        | write xs => exact ⟨rfl, rfl⟩
        | sync => exact ⟨rfl, rfl⟩
        | remove => exact ⟨rfl, rfl⟩
      have hrest := ih (d := d.apply o) fun hmem => h (List.mem_cons_of_mem o hmem)
      exact ⟨hrest.1.trans hfirst.1, hrest.2.trans hfirst.2⟩

/-- A replacement renames at its end and nowhere before. -/
theorem rename_notMem_take {parts : List (List β)} {k : ℕ} (hk : k < (replacement parts).length) :
    Operation.rename ∉ (replacement parts).take k := by
  have hsplit : replacement parts = (.create :: (parts.map .write ++ [.sync])) ++ [.rename] := by
    simp [replacement]
  intro hmem
  rw [hsplit, List.take_append_of_le_length] at hmem
  · have hall := List.mem_of_mem_take hmem
    simp at hall
  · rw [hsplit, List.length_append, List.length_singleton] at hk
    exact Nat.le_of_lt_succ hk

theorem Attempt.rename_notMem (h : Attempt xs operations) : Operation.rename ∉ operations := by
  cases h with
  | stopped parts k hparts hk => exact rename_notMem_take hk
  | undone parts k hparts hk =>
      rw [List.mem_append, List.mem_singleton]
      exact not_or.mpr ⟨rename_notMem_take hk, by simp⟩

/-- Stopping an attempt earlier leaves an attempt. -/
theorem Attempt.take (h : Attempt xs operations) (n : ℕ) : Attempt xs (operations.take n) := by
  cases h with
  | stopped parts k hparts hk =>
      rw [List.take_take]
      exact .stopped parts (min n k) hparts ((min_le_right n k).trans_lt hk)
  | undone parts k hparts hk =>
      have hlength : ((replacement parts).take k).length = k := by
        rw [List.length_take, min_eq_left hk.le]
      by_cases hn : n ≤ k
      · rw [List.take_append_of_le_length (hn.trans_eq hlength.symm), List.take_take]
        exact .stopped parts (min n k) hparts ((min_le_right n k).trans_lt hk)
      · rw [List.take_of_length_le]
        · exact .undone parts k hparts hk
        · rw [List.length_append, hlength, List.length_singleton]
          exact Nat.lt_of_not_le hn

/-- Before its last operation an attempt has done what a replacement does. -/
theorem Attempt.take_of_lt (h : Attempt xs operations) {n : ℕ} (hn : n < operations.length) :
    ∃ parts : List (List β), n < (replacement parts).length ∧
      operations.take n = (replacement parts).take n := by
  cases h with
  | stopped parts k hparts hk =>
      rw [List.length_take, min_eq_left hk.le] at hn
      exact ⟨parts, hn.trans hk, by rw [List.take_take, min_eq_left hn.le]⟩
  | undone parts k hparts hk =>
      have hlength : ((replacement parts).take k).length = k := by
        rw [List.length_take, min_eq_left hk.le]
      rw [List.length_append, hlength, List.length_singleton] at hn
      have hle : n ≤ k := Nat.le_of_lt_succ hn
      refine ⟨parts, hle.trans_lt hk, ?_⟩
      rw [List.take_append_of_le_length (hle.trans_eq hlength.symm), List.take_take,
        min_eq_left hle]

/-- The parts written to a fresh file. -/
theorem perform_writes (parts : List (List β)) (content : List β) (synced : Bool)
    (h : d.staged = some ⟨content, synced⟩) :
    (d.perform (parts.map .write)).staged.map File.content = some (content ++ parts.flatten) := by
  induction parts generalizing d content synced with
  | nil => simp [Disk.perform, h]
  | cons part rest ih =>
      have hnext : (d.apply (.write part)).staged = some ⟨content ++ part, false⟩ := by
        simp [Disk.apply, h]
      have hrest := ih (content ++ part) false hnext
      simpa [Disk.perform] using hrest

/-- A replacement shows its content, as a whole and on the medium. -/
theorem perform_replacement (d : Disk β) (parts : List (List β)) :
    d.perform (replacement parts) =
      ⟨some ⟨parts.flatten, true⟩, none, d.target :: d.past⟩ := by
  have hwritten := perform_writes (d := d.apply .create) parts [] false rfl
  have hwrites : Operation.rename ∉ parts.map Operation.write := by simp
  have hkept := perform_keeps (d := d.apply .create) hwrites
  have hsplit : d.perform (replacement parts) =
      ((((d.apply .create).perform (parts.map .write)).apply .sync).apply .rename) := by
    simp only [replacement, Disk.perform, List.foldl_cons, List.foldl_append, List.foldl_nil]
  rw [hsplit]
  generalize (d.apply .create).perform (parts.map .write) = written at hwritten hkept
  obtain ⟨f, hstaged, hcontent⟩ := Option.map_eq_some_iff.mp hwritten
  simp only [Disk.apply, hstaged, Option.map_some, hkept.1, hkept.2, hcontent, List.nil_append]

/-! ## Complete files -/

/-- Whatever the first name may show, also after a loss of power, is a file on the medium
whose content satisfies `P`. -/
def Disk.Complete (P : List β → Prop) (d : Disk β) : Prop :=
  ∀ f, some f ∈ d.target :: d.past → f.synced = true ∧ P f.content

variable {P : List β → Prop}

theorem Disk.Complete.mono {Q : List β → Prop} (h : d.Complete P) (hPQ : ∀ xs, P xs → Q xs) :
    d.Complete Q :=
  fun f hf => ⟨(h f hf).1, hPQ f.content (h f hf).2⟩

theorem Disk.Complete.keep {d' : Disk β} (h : d.Complete P)
    (hkept : d'.target = d.target ∧ d'.past = d.past) : d'.Complete P := by
  rw [Disk.Complete, hkept.1, hkept.2]
  exact h

theorem Disk.Complete.replacement (h : d.Complete P) {parts : List (List β)}
    (hP : P parts.flatten) : (d.perform (Publication.replacement parts)).Complete P := by
  rw [perform_replacement]
  intro f hf
  rcases List.mem_cons.mp hf with hnew | hold
  · obtain rfl := Option.some.inj hnew
    exact ⟨rfl, hP⟩
  · exact h f hold

/-- A loss of power shows one of the files shown before, as it was written. -/
theorem Disk.Complete.lose (h : d.Complete P) (l : Loss β) :
    (d.lose l).Complete P ∧ (d.lose l).target ∈ d.target :: d.past := by
  have hshown : (d.target :: d.past).getD l.shown d.target ∈ d.target :: d.past := by
    rw [List.getD_eq_getElem?_getD]
    cases hget : (d.target :: d.past)[l.shown]? with
    | none => exact List.mem_cons_self
    | some shown => exact List.mem_of_getElem? hget
  have htarget : (d.lose l).target = (d.target :: d.past).getD l.shown d.target := by
    simp only [Disk.lose]
    cases hcase : (d.target :: d.past).getD l.shown d.target with
    | none => exact Option.map_none _
    | some f =>
        rw [hcase] at hshown
        rw [Option.map_some, if_pos (h f hshown).1]
  rw [← htarget] at hshown
  refine ⟨?_, hshown⟩
  intro f hf
  have htop : some f = (d.lose l).target := by
    simpa [Disk.lose] using hf
  exact h f (htop ▸ hshown)

/-! ## Leftovers -/

/-- A replacement stopped after its first operation leaves a file under the second name. -/
theorem staged_of_stopped {parts : List (List β)} {k : ℕ} (hpos : 0 < k)
    (hk : k < (replacement parts).length) :
    (d.perform ((replacement parts).take k)).staged.isSome = true := by
  have hkeep : ∀ (rest : List (Operation β)) (d : Disk β), d.staged.isSome = true →
      Operation.rename ∉ rest → Operation.remove ∉ rest →
      (d.perform rest).staged.isSome = true := by
    intro rest
    induction rest with
    | nil => exact fun d hd _ _ => hd
    | cons o rest ih =>
        intro d hd hrename hremove
        refine ih (d.apply o) ?_ (fun hmem => hrename (List.mem_cons_of_mem o hmem))
          fun hmem => hremove (List.mem_cons_of_mem o hmem)
        cases o with
        | create => rfl
        | write xs => simpa [Disk.apply] using hd
        | sync => simpa [Disk.apply] using hd
        | rename => exact absurd List.mem_cons_self hrename
        | remove => exact absurd List.mem_cons_self hremove
  obtain ⟨k, rfl⟩ := Nat.exists_eq_succ_of_ne_zero (Nat.ne_of_gt hpos)
  have hrename := rename_notMem_take hk
  simp only [replacement, List.take_succ_cons] at hrename ⊢
  refine hkeep _ (d.apply .create) rfl (fun hmem => hrename (List.mem_cons_of_mem _ hmem)) ?_
  intro hmem
  simpa using List.mem_of_mem_take hmem

end Publication
