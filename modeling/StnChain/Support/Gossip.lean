import Mathlib.Data.Set.Insert
import Mathlib.Order.Basic

/-!
# Gossip

Parties have levels that never fall.  A party may offer another one its level of the moment
over a channel, and a party that hears what a channel offers rises to that level at least.
Whoever has heard of a party, from it or from others that have heard of it, has risen to the
level that it had, `Run.reached`.
-/

namespace Gossip

variable {κ ω : Type*}

/-- What a step does between two parties: the second offers the first what it has, or the first
hears what the second has offered, or what was offered is lost. -/
inductive Act (κ : Type*)
  | none
  | offers (a b : κ)
  | hears (a b : κ)
  | loses (a b : κ)

/-- The levels of parties and of what has been offered. -/
structure Levels (κ ω : Type*) where
  party : κ → ω
  channel : κ → κ → ω

variable [Preorder ω]

/-- A step raises the levels that its act says. -/
structure Act.Raises (act : Act κ) (l l' : Levels κ ω) : Prop where
  party : ∀ k, l.party k ≤ l'.party k
  kept : ∀ a b, act ≠ .offers a b → act ≠ .loses a b → l.channel a b ≤ l'.channel a b
  offered : ∀ a b, act = .offers a b → l.party b ≤ l'.channel a b
  heard : ∀ a b, act = .hears a b → l.channel a b ≤ l'.party a

/-- A run of steps. -/
inductive Run : Levels κ ω → List (Act κ) → Levels κ ω → Prop
  | nil (l : Levels κ ω) : Run l [] l
  | cons {l l' l'' : Levels κ ω} {act : Act κ} {acts : List (Act κ)} (h : act.Raises l l')
      (hrest : Run l' acts l'') : Run l (act :: acts) l''

/-- The parties that have heard of one, and the channels that tell of it. -/
structure Heard (κ : Type*) where
  parties : Set κ
  channels : Set (κ × κ)

/-- Nobody but a party has heard of it. -/
def Heard.start (j : κ) : Heard κ :=
  ⟨{j}, ∅⟩

/-- Who has heard after an act. -/
def Heard.after (h : Heard κ) : Act κ → Heard κ
  | .none => h
  | .offers a b =>
      { h with channels := {p | p = (a, b) ∧ b ∈ h.parties ∨ p ≠ (a, b) ∧ p ∈ h.channels} }
  | .hears a b => { h with parties := {k | k ∈ h.parties ∨ k = a ∧ (a, b) ∈ h.channels} }
  | .loses a b => { h with channels := {p | p ∈ h.channels ∧ p ≠ (a, b)} }

/-- Who has heard of a party after some acts. -/
def heard (j : κ) (acts : List (Act κ)) : Set κ :=
  (acts.foldl Heard.after (.start j)).parties

variable {w : ω} {l l' : Levels κ ω} {act : Act κ} {acts : List (Act κ)} {h : Heard κ}

/-- Whoever has heard has a level, and so has whatever tells of it. -/
structure Heard.Reached (h : Heard κ) (w : ω) (l : Levels κ ω) : Prop where
  parties : ∀ k ∈ h.parties, w ≤ l.party k
  channels : ∀ a b, (a, b) ∈ h.channels → w ≤ l.channel a b

/-- A step that neither offers nor is heard. -/
theorem Act.Raises.of_le (hparty : ∀ k, l.party k ≤ l'.party k)
    (hchannel : ∀ a b, l.channel a b ≤ l'.channel a b)
    (hact : act = .none ∨ ∃ a b, act = .loses a b) : act.Raises l l' := by
  refine ⟨hparty, fun a b _ _ => hchannel a b, ?_, ?_⟩
  · intro a b hoffers
    rcases hact with rfl | ⟨a', b', rfl⟩
    · cases hoffers
    · cases hoffers
  · intro a b hhears
    rcases hact with rfl | ⟨a', b', rfl⟩
    · cases hhears
    · cases hhears

theorem Heard.Reached.after (hreached : h.Reached w l) (hraises : act.Raises l l') :
    (h.after act).Reached w l' := by
  have hparties : ∀ k ∈ h.parties, w ≤ l'.party k := fun k hk =>
    (hreached.parties k hk).trans (hraises.party k)
  cases act with
  | none =>
      refine ⟨hparties, fun a b hab => ?_⟩
      exact (hreached.channels a b hab).trans (hraises.kept a b (by simp) (by simp))
  | offers a b =>
      refine ⟨hparties, fun a' b' hab => ?_⟩
      rcases hab with ⟨hsame, hb⟩ | ⟨hdiffer, hab⟩
      · obtain ⟨rfl, rfl⟩ := Prod.mk.inj hsame
        exact (hreached.parties _ hb).trans (hraises.offered _ _ rfl)
      · have hother : Act.offers a b ≠ .offers a' b' := by
          intro heq
          obtain ⟨rfl, rfl⟩ := Act.offers.inj heq
          exact hdiffer rfl
        exact (hreached.channels a' b' hab).trans (hraises.kept a' b' hother (by simp))
  | hears a b =>
      refine ⟨fun k hk => ?_, fun a' b' hab => ?_⟩
      · rcases hk with hk | ⟨rfl, hab⟩
        · exact hparties k hk
        · exact (hreached.channels _ b hab).trans (hraises.heard _ b rfl)
      · exact (hreached.channels a' b' hab).trans (hraises.kept a' b' (by simp) (by simp))
  | loses a b =>
      refine ⟨hparties, fun a' b' hab => ?_⟩
      obtain ⟨hab, hdiffer⟩ := hab
      have hother : Act.loses a b ≠ .loses a' b' := by
        intro heq
        obtain ⟨rfl, rfl⟩ := Act.loses.inj heq
        exact hdiffer rfl
      exact (hreached.channels a' b' hab).trans (hraises.kept a' b' (by simp) hother)

theorem Run.heard_reached (hrun : Run l acts l') (hreached : h.Reached w l) :
    (acts.foldl Heard.after h).Reached w l' := by
  induction hrun generalizing h with
  | nil l => exact hreached
  | cons hraises _ ih => exact ih (hreached.after hraises)

/-- Whoever has heard of a party has risen to the level that it had. -/
theorem Run.reached (hrun : Run l acts l') (j : κ) :
    ∀ k ∈ heard j acts, l.party j ≤ l'.party k := by
  have hstart : (Heard.start j).Reached (l.party j) l := by
    refine ⟨fun k hk => ?_, fun a b hab => ?_⟩
    · rw [Set.mem_singleton_iff.mp hk]
    · exact absurd hab (Set.notMem_empty _)
  exact (hrun.heard_reached hstart).parties

end Gossip
