import StnChain.Support.References
import StnChain.Wire

/-!
# Sharing a chain state

A chain state owns up to six components, each with a count of its owners.  Sharing the
state raises the counts one after the other; where a count cannot be raised, the branch
of that component takes back what the branches before it did (`stn_chain.c`).
`state_share_atomic_iff` says for which counts they take back exactly that.
-/

namespace StnChain

open References

/-! ## Components and owners -/

/-- The components of a chain state that are shared by reference. -/
inductive StateComponent
  | lifecycle | shares | blockCompensation | compensation | economy | contracts
  deriving DecidableEq, Repr

/-- A shared object: its kind and which one of that kind it is. -/
abbrev ComponentObject : Type := StateComponent × ℕ

/-- A chain state as an owner: the values copied with it, and its components, of which any
may be missing. -/
structure ChainOwner (ρ : Type) where
  values : ρ
  component : StateComponent → Option ℕ

variable {ρ : Type}

/-- The objects a state owns among some kinds. -/
def ChainOwner.objects (s : ChainOwner ρ) (cs : List StateComponent) : List ComponentObject :=
  cs.filterMap fun c => (s.component c).map fun i => (c, i)

/-- Every kind, in the order in which sharing raises them. -/
def stateComponents : List StateComponent :=
  [.lifecycle, .shares, .blockCompensation, .compensation, .economy, .contracts]

/-! ## `stn_chain_state_share` -/

/-- The branch of a component whose failure takes back some others.  The status is read
from the count after that. -/
def shareComponent (s : ChainOwner ρ) (c : StateComponent) (undo : List StateComponent)
    (l : Ledger ComponentObject) :
    Except (DataStatus × Ledger ComponentObject) (Ledger ComponentObject) :=
  match s.component c with
  | none => .ok l
  | some i =>
      if l.count (c, i) = 0 ∨ l.count (c, i) = maxCount then
        let undone := l.dropAll (s.objects undo)
        .error (if undone.count (c, i) = maxCount then .capacity else .argument, undone)
      else .ok (l.raise (c, i))

/-- The branch of the contracts, behind `stn_contract_snapshot_share`. -/
def shareContracts (s : ChainOwner ρ) (l : Ledger ComponentObject) :
    Except (DataStatus × Ledger ComponentObject) (Ledger ComponentObject) :=
  match s.component .contracts with
  | none => .ok l
  | some i =>
      if l.count (.contracts, i) = 0 ∨ l.count (.contracts, i) = maxCount then
        .error (.capacity, l.dropAll (s.objects
          [.lifecycle, .shares, .blockCompensation, .compensation, .economy]))
      else .ok (l.raise (.contracts, i))

/-- The six branches.  That of the block compensations takes back its own component, and
that of the compensations leaves the block compensations out. -/
def shareComponents (s : ChainOwner ρ) (l : Ledger ComponentObject) :
    Except (DataStatus × Ledger ComponentObject) (Ledger ComponentObject) := do
  let l ← shareComponent s .lifecycle [] l
  let l ← shareComponent s .shares [.lifecycle] l
  let l ← shareComponent s .blockCompensation [.lifecycle, .shares, .blockCompensation] l
  let l ← shareComponent s .compensation [.lifecycle, .shares] l
  let l ← shareComponent s .economy [.lifecycle, .shares, .blockCompensation, .compensation] l
  shareContracts s l

/-- The status of sharing, the counts behind it, and the destination. -/
structure ShareOutcome (ρ : Type) where
  status : Except DataStatus Unit
  ledger : Ledger ComponentObject
  out : Option (ChainOwner ρ)

/-- `stn_chain_state_share`; a destination of `none` is the source itself. -/
def chainStateShare (source : ChainOwner ρ) (out : Option (ChainOwner ρ))
    (l : Ledger ComponentObject) : ShareOutcome ρ :=
  match out with
  | none => ⟨.ok (), l, none⟩
  | some out =>
      match shareComponents source l with
      | .error (status, l) => ⟨.error status, l, some out⟩
      | .ok l => ⟨.ok (), l, some source⟩

/-! ## What sharing should do -/

/-- A state shared with itself is left alone.  Shared with another, either every owned
object has one reference more and the other state owns what the source does, or nothing
has changed; no object is freed. -/
def ShareOutcome.Honoured (source : ChainOwner ρ) (out : Option (ChainOwner ρ))
    (l : Ledger ComponentObject) (o : ShareOutcome ρ) : Prop :=
  match out, o.status with
  | none, status => status = .ok () ∧ o.ledger = l
  | some _, .ok () =>
      o.out = some source ∧ o.ledger.freed = l.freed ∧
        (∀ k ∈ source.objects stateComponents, o.ledger.count k = l.count k + 1) ∧
        ∀ k ∉ source.objects stateComponents, o.ledger.count k = l.count k
  | some out, .error _ => o.out = some out ∧ o.ledger = l

/-- The count of a component, where there is one, can be raised. -/
def ChainOwner.CanShare (s : ChainOwner ρ) (l : Ledger ComponentObject) (c : StateComponent) :
    Prop :=
  ∀ i, s.component c = some i → l.CanRaise (c, i)

/-- Sharing does not stop at the block compensations, nor at the compensations of a state
that has block compensations. -/
def ChainOwner.Reversible (s : ChainOwner ρ) (l : Ledger ComponentObject) : Prop :=
  s.CanShare l .lifecycle → s.CanShare l .shares →
    s.CanShare l .blockCompensation ∧
      (s.component .blockCompensation ≠ none → s.CanShare l .compensation)

/-! ## The branches -/

variable {s : ChainOwner ρ} {l : Ledger ComponentObject} {c : StateComponent}
  {before undo cs : List StateComponent}

theorem ChainOwner.mem_objects {k : ComponentObject} :
    k ∈ s.objects cs ↔ k.1 ∈ cs ∧ s.component k.1 = some k.2 := by
  obtain ⟨d, i⟩ := k
  simp only [ChainOwner.objects, List.mem_filterMap, Option.map_eq_some_iff, Prod.mk.injEq]
  constructor
  · rintro ⟨e, he, j, hj, rfl, rfl⟩
    exact ⟨he, hj⟩
  · rintro ⟨hd, hi⟩
    exact ⟨d, hd, i, hi, rfl, rfl⟩

theorem ChainOwner.nodup_objects (h : cs.Nodup) : (s.objects cs).Nodup := by
  apply List.Nodup.filterMap _ h
  rintro a b k hk hk'
  obtain ⟨i, -, rfl⟩ := Option.map_eq_some_iff.mp (Option.mem_def.mp hk)
  obtain ⟨j, -, heq⟩ := Option.map_eq_some_iff.mp (Option.mem_def.mp hk')
  exact (Prod.mk.inj heq).1.symm

theorem ChainOwner.objects_append (s : ChainOwner ρ) (before cs : List StateComponent) :
    s.objects (before ++ cs) = s.objects before ++ s.objects cs :=
  List.filterMap_append

/-- Raising other components does not change whether one can be raised. -/
theorem ChainOwner.count_raised (hbefore : before.Nodup) (hnew : c ∉ before) (i : ℕ) :
    (l.raiseAll (s.objects before)).count (c, i) = l.count (c, i) := by
  rw [Ledger.count_raiseAll (nodup_objects hbefore), if_neg]
  intro hmem
  exact hnew (mem_objects.mp hmem).1

theorem ChainOwner.canShare_of_none (hc : s.component c = none) : s.CanShare l c := by
  intro i hi
  rw [hc] at hi
  cases hi

theorem ChainOwner.canShare_iff_of_some {i : ℕ} (hc : s.component c = some i) :
    s.CanShare l c ↔ ¬(l.count (c, i) = 0 ∨ l.count (c, i) = maxCount) := by
  rw [not_or]
  constructor
  · exact fun hcan => hcan i hc
  · intro hraise j hj
    obtain rfl := Option.some.inj (hc.symm.trans hj)
    exact hraise

theorem ChainOwner.raiseAll_snoc_none (hc : s.component c = none) :
    l.raiseAll (s.objects (before ++ [c])) = l.raiseAll (s.objects before) := by
  have hnone : s.objects [c] = [] := by simp [ChainOwner.objects, hc]
  rw [ChainOwner.objects_append, hnone, List.append_nil]

theorem ChainOwner.raiseAll_snoc_some {i : ℕ} (hc : s.component c = some i) :
    l.raiseAll (s.objects (before ++ [c])) = (l.raiseAll (s.objects before)).raise (c, i) := by
  have hone : s.objects [c] = [(c, i)] := by simp [ChainOwner.objects, hc]
  rw [ChainOwner.objects_append, hone, Ledger.raiseAll_append]
  rfl

/-- A branch behind some others: its object is raised as well, or what it takes back is
dropped. -/
theorem shareComponent_spec (s : ChainOwner ρ) (l : Ledger ComponentObject) (c : StateComponent)
    (before undo : List StateComponent) (hbefore : before.Nodup) (hnew : c ∉ before) :
    (s.CanShare l c → shareComponent s c undo (l.raiseAll (s.objects before)) =
        .ok (l.raiseAll (s.objects (before ++ [c])))) ∧
      (¬s.CanShare l c → ∃ status, shareComponent s c undo (l.raiseAll (s.objects before)) =
        .error (status, (l.raiseAll (s.objects before)).dropAll (s.objects undo))) := by
  cases hc : s.component c with
  | none =>
      refine ⟨fun _ => ?_, fun hblocked => absurd (ChainOwner.canShare_of_none hc) hblocked⟩
      rw [ChainOwner.raiseAll_snoc_none hc]
      simp [shareComponent, hc]
  | some i =>
      have hcount := ChainOwner.count_raised (s := s) (l := l) hbefore hnew i
      rw [ChainOwner.canShare_iff_of_some hc, not_not, ChainOwner.raiseAll_snoc_some hc]
      simp only [shareComponent, hc, hcount]
      constructor
      · exact fun hraise => if_neg hraise
      · intro hstop
        rw [if_pos hstop]
        exact ⟨_, rfl⟩

theorem shareContracts_spec (s : ChainOwner ρ) (l : Ledger ComponentObject)
    (before : List StateComponent) (hbefore : before.Nodup) (hnew : .contracts ∉ before) :
    (s.CanShare l .contracts → shareContracts s (l.raiseAll (s.objects before)) =
        .ok (l.raiseAll (s.objects (before ++ [.contracts])))) ∧
      (¬s.CanShare l .contracts → shareContracts s (l.raiseAll (s.objects before)) =
        .error (.capacity, (l.raiseAll (s.objects before)).dropAll (s.objects
          [.lifecycle, .shares, .blockCompensation, .compensation, .economy]))) := by
  cases hc : s.component .contracts with
  | none =>
      refine ⟨fun _ => ?_, fun hblocked => absurd (ChainOwner.canShare_of_none hc) hblocked⟩
      rw [ChainOwner.raiseAll_snoc_none hc]
      simp [shareContracts, hc]
  | some i =>
      have hcount := ChainOwner.count_raised (s := s) (l := l) hbefore hnew i
      rw [ChainOwner.canShare_iff_of_some hc, not_not, ChainOwner.raiseAll_snoc_some hc]
      simp only [shareContracts, hc, hcount]
      exact ⟨fun hraise => if_neg hraise, fun hstop => if_pos hstop⟩

/-- Sharing stopped at a component: those before it were raised, and its branch took back
some. -/
structure StoppedAt (s : ChainOwner ρ) (l : Ledger ComponentObject) (c : StateComponent)
    (before undo : List StateComponent) : Prop where
  raised : ∀ d ∈ before, s.CanShare l d
  blocked : ¬s.CanShare l c
  result : ∃ status, shareComponents s l =
    .error (status, (l.raiseAll (s.objects before)).dropAll (s.objects undo))

/-- Sharing raises every component, or stops at the first that cannot be raised. -/
theorem shareComponents_cases (s : ChainOwner ρ) (l : Ledger ComponentObject) :
    StoppedAt s l .lifecycle [] [] ∨
    StoppedAt s l .shares [.lifecycle] [.lifecycle] ∨
    StoppedAt s l .blockCompensation [.lifecycle, .shares]
      [.lifecycle, .shares, .blockCompensation] ∨
    StoppedAt s l .compensation [.lifecycle, .shares, .blockCompensation]
      [.lifecycle, .shares] ∨
    StoppedAt s l .economy [.lifecycle, .shares, .blockCompensation, .compensation]
      [.lifecycle, .shares, .blockCompensation, .compensation] ∨
    StoppedAt s l .contracts [.lifecycle, .shares, .blockCompensation, .compensation, .economy]
      [.lifecycle, .shares, .blockCompensation, .compensation, .economy] ∨
    (∀ c ∈ stateComponents, s.CanShare l c) ∧
      shareComponents s l = .ok (l.raiseAll (s.objects stateComponents)) := by
  obtain ⟨hpass₁, hstop₁⟩ := shareComponent_spec s l .lifecycle [] [] (by decide) (by decide)
  obtain ⟨hpass₂, hstop₂⟩ := shareComponent_spec s l .shares [.lifecycle] [.lifecycle]
    (by decide) (by decide)
  obtain ⟨hpass₃, hstop₃⟩ := shareComponent_spec s l .blockCompensation [.lifecycle, .shares]
    [.lifecycle, .shares, .blockCompensation] (by decide) (by decide)
  obtain ⟨hpass₄, hstop₄⟩ := shareComponent_spec s l .compensation
    [.lifecycle, .shares, .blockCompensation] [.lifecycle, .shares] (by decide) (by decide)
  obtain ⟨hpass₅, hstop₅⟩ := shareComponent_spec s l .economy
    [.lifecycle, .shares, .blockCompensation, .compensation]
    [.lifecycle, .shares, .blockCompensation, .compensation] (by decide) (by decide)
  obtain ⟨hpass₆, hstop₆⟩ := shareContracts_spec s l
    [.lifecycle, .shares, .blockCompensation, .compensation, .economy] (by decide) (by decide)
  have hstart : l = l.raiseAll (s.objects []) := rfl
  rw [← hstart] at hpass₁ hstop₁
  by_cases h₁ : s.CanShare l .lifecycle
  case neg =>
    obtain ⟨status, hresult⟩ := hstop₁ h₁
    refine .inl ⟨by simp, h₁, status, ?_⟩
    simp only [shareComponents, bind, Except.bind, hresult]
    rfl
  by_cases h₂ : s.CanShare l .shares
  case neg =>
    obtain ⟨status, hresult⟩ := hstop₂ h₂
    refine .inr (.inl ⟨by simp [h₁], h₂, status, ?_⟩)
    simp only [shareComponents, bind, Except.bind, hpass₁ h₁, List.nil_append, hresult]
  by_cases h₃ : s.CanShare l .blockCompensation
  case neg =>
    obtain ⟨status, hresult⟩ := hstop₃ h₃
    refine .inr (.inr (.inl ⟨by simp [h₁, h₂], h₃, status, ?_⟩))
    simp only [shareComponents, bind, Except.bind, hpass₁ h₁, hpass₂ h₂, List.nil_append,
      List.cons_append, hresult]
  by_cases h₄ : s.CanShare l .compensation
  case neg =>
    obtain ⟨status, hresult⟩ := hstop₄ h₄
    refine .inr (.inr (.inr (.inl ⟨by simp [h₁, h₂, h₃], h₄, status, ?_⟩)))
    simp only [shareComponents, bind, Except.bind, hpass₁ h₁, hpass₂ h₂, hpass₃ h₃,
      List.nil_append, List.cons_append, hresult]
  by_cases h₅ : s.CanShare l .economy
  case neg =>
    obtain ⟨status, hresult⟩ := hstop₅ h₅
    refine .inr (.inr (.inr (.inr (.inl ⟨by simp [h₁, h₂, h₃, h₄], h₅, status, ?_⟩))))
    simp only [shareComponents, bind, Except.bind, hpass₁ h₁, hpass₂ h₂, hpass₃ h₃, hpass₄ h₄,
      List.nil_append, List.cons_append, hresult]
  by_cases h₆ : s.CanShare l .contracts
  case neg =>
    refine .inr (.inr (.inr (.inr (.inr (.inl
      ⟨by simp [h₁, h₂, h₃, h₄, h₅], h₆, .capacity, ?_⟩)))))
    simp only [shareComponents, bind, Except.bind, hpass₁ h₁, hpass₂ h₂, hpass₃ h₃, hpass₄ h₄,
      hpass₅ h₅, List.nil_append, List.cons_append, hstop₆ h₆]
  refine .inr (.inr (.inr (.inr (.inr (.inr ⟨?_, ?_⟩)))))
  · simp [stateComponents, h₁, h₂, h₃, h₄, h₅, h₆]
  · simp only [shareComponents, bind, Except.bind, hpass₁ h₁, hpass₂ h₂, hpass₃ h₃, hpass₄ h₄,
      hpass₅ h₅, hpass₆ h₆, List.nil_append, List.cons_append, stateComponents]

/-! ## Sharing is atomic -/

variable {source out : ChainOwner ρ}

/-- Where sharing stopped, it did nothing exactly if the branch took back what was raised. -/
theorem StoppedAt.honoured_iff (h : StoppedAt source l c before undo) (hbefore : before.Nodup)
    (hundo : undo.Nodup) :
    (chainStateShare source (some out) l).Honoured source (some out) l ↔
      ∀ k, k ∈ source.objects before ↔ k ∈ source.objects undo := by
  obtain ⟨status, hresult⟩ := h.result
  have hraised : ∀ k ∈ source.objects before, l.CanRaise k := by
    intro k hk
    obtain ⟨hkind, howned⟩ := ChainOwner.mem_objects.mp hk
    exact h.raised k.1 hkind k.2 howned
  rw [← Ledger.restored_iff (ChainOwner.nodup_objects hbefore) (ChainOwner.nodup_objects hundo)
    hraised]
  simp [chainStateShare, hresult, ShareOutcome.Honoured]

theorem StoppedAt.honoured (h : StoppedAt source l c before before) (hbefore : before.Nodup) :
    (chainStateShare source (some out) l).Honoured source (some out) l :=
  (h.honoured_iff hbefore hbefore).mpr fun _ => Iff.rfl

/-- For every state and every combination of counts, sharing raises each count by one or
changes nothing exactly when it does not stop at the block compensations, nor at the
compensations of a state that has block compensations. -/
theorem state_share_atomic_iff (source : ChainOwner ρ) (out : Option (ChainOwner ρ))
    (l : Ledger ComponentObject) :
    (chainStateShare source out l).Honoured source out l ↔
      (out.isSome → source.Reversible l) := by
  cases out with
  | none => simp [chainStateShare, ShareOutcome.Honoured]
  | some out =>
  simp only [Option.isSome_some, forall_const]
  rcases shareComponents_cases source l with h | h | h | h | h | h | ⟨hall, hresult⟩
  · exact iff_of_true (h.honoured (by decide)) fun hlifecycle => absurd hlifecycle h.blocked
  · exact iff_of_true (h.honoured (by decide)) fun _ hshares => absurd hshares h.blocked
  · have hreversible : ¬source.Reversible l := fun hrev =>
      h.blocked (hrev (h.raised _ (by simp)) (h.raised _ (by simp))).1
    refine iff_of_false ?_ hreversible
    rw [h.honoured_iff (by decide) (by decide)]
    intro hsame
    refine h.blocked fun i hi => ?_
    have hmem := (hsame (.blockCompensation, i)).mpr (ChainOwner.mem_objects.mpr ⟨by simp, hi⟩)
    exact absurd (ChainOwner.mem_objects.mp hmem).1 (by simp)
  · rw [h.honoured_iff (by decide) (by decide)]
    constructor
    · intro hsame _ _
      refine ⟨h.raised _ (by simp), fun howned => ?_⟩
      obtain ⟨i, hi⟩ := Option.ne_none_iff_exists'.mp howned
      have hmem := (hsame (.blockCompensation, i)).mp (ChainOwner.mem_objects.mpr ⟨by simp, hi⟩)
      exact absurd (ChainOwner.mem_objects.mp hmem).1 (by simp)
    · intro hrev k
      have hnone : source.component .blockCompensation = none := by
        by_contra howned
        exact h.blocked ((hrev (h.raised _ (by simp)) (h.raised _ (by simp))).2 howned)
      simp only [ChainOwner.mem_objects, List.mem_cons, List.not_mem_nil, or_false]
      constructor
      · rintro ⟨hkind | hkind | hkind, howned⟩
        · exact ⟨.inl hkind, howned⟩
        · exact ⟨.inr hkind, howned⟩
        · rw [hkind, hnone] at howned
          cases howned
      · rintro ⟨hkind | hkind, howned⟩
        · exact ⟨.inl hkind, howned⟩
        · exact ⟨.inr (.inl hkind), howned⟩
  · refine iff_of_true (h.honoured (by decide)) fun _ _ => ⟨h.raised _ (by simp), fun _ => ?_⟩
    exact h.raised _ (by simp)
  · refine iff_of_true (h.honoured (by decide)) fun _ _ => ⟨h.raised _ (by simp), fun _ => ?_⟩
    exact h.raised _ (by simp)
  · refine iff_of_true ?_ fun _ _ => ⟨hall _ (by decide), fun _ => hall _ (by decide)⟩
    simp only [chainStateShare, hresult, ShareOutcome.Honoured, Ledger.freed_raiseAll, true_and]
    have hnodup : (source.objects stateComponents).Nodup :=
      ChainOwner.nodup_objects (by decide)
    constructor
    · intro k hk
      rw [Ledger.count_raiseAll hnodup, if_pos hk]
    · intro k hk
      rw [Ledger.count_raiseAll hnodup, if_neg hk]

/-! ## A share that is not taken back -/

namespace Sample

/-- A state that owns one object of every kind. -/
def fullOwner : ChainOwner Unit where
  values := ()
  component _ := some 0

/-- Every object has one owner, and the block compensations as many as can be counted. -/
def exhausted : Ledger ComponentObject where
  count k := if k.1 = .blockCompensation then maxCount else 1
  freed := []

end Sample

open Sample in
/-- The failed share leaves the block compensations with one reference less. -/
theorem sample_share_not_taken_back :
    ¬(chainStateShare fullOwner (some fullOwner) exhausted).Honoured fullOwner (some fullOwner)
      exhausted := by
  intro hhonoured
  have hstatus : (chainStateShare fullOwner (some fullOwner) exhausted).status =
      .error .argument := rfl
  simp only [ShareOutcome.Honoured, hstatus] at hhonoured
  have hcount := congrArg (fun l => l.count (.blockCompensation, 0)) hhonoured.2
  revert hcount
  decide

end StnChain
