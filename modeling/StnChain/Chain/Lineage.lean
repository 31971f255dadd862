import StnChain.Chain.Content
import StnChain.Chain.Rotations

/-!
# Rotation lineages

What a run of accepted rotations leaves.  Applied on its own, the rotation state is a simple
chain as long as no rotation is repeated after another one: a repeated rotation is
recognised, but moves the current identity back.  In an accepted history the replay
identifiers exclude the repetition, and the rotations form a single lineage, which any of the
initial identities may start and only its end continues.
-/

namespace StnChain

section

variable [Primitives]

/-! ## Runs of rotations -/

/-- A call of `stn_identity_rotation_apply`: the rotation, and the roots it is checked with. -/
structure RotationCall where
  rotation : Bytes
  roots : List (Octets 32)

omit [Primitives] in
/-- The rotation a call applies. -/
def RotationCall.edge (call : RotationCall) : IdentityRotation :=
  ⟨octetsAt call.rotation 1 32, octetsAt call.rotation 33 32⟩

/-- The state after a successful call. -/
def identityRotationStep (state : IdentityRotationState) (call : RotationCall) :
    Option IdentityRotationState :=
  match identityRotationApply state call.rotation call.roots with
  | (.valid, state) => some state
  | _ => none

/-- The state after successful calls from an initial identity. -/
def identityRotationRun (initial : Octets 32) (calls : List RotationCall) :
    Option IdentityRotationState :=
  calls.foldlM identityRotationStep (identityRotationInitialize initial)

namespace IdentityRotationState

/-- The identities a state has passed through, in order. -/
def visited (s : IdentityRotationState) : List (Octets 32) :=
  s.initialIdentity :: s.rotations.map IdentityRotation.newIdentity

/-- The state after a further rotation. -/
def extend (s : IdentityRotationState) (r : IdentityRotation) : IdentityRotationState :=
  { s with
    rotations := s.rotations ++ [r]
    currentIdentity := r.newIdentity }

/-- Every rotation starts where the one before it ends, the current identity is the end of
the last one, and no identity is visited twice. -/
structure SimpleChain (s : IdentityRotationState) : Prop where
  linked : s.visited = s.rotations.map IdentityRotation.oldIdentity ++ [s.currentIdentity]
  distinct : s.visited.Nodup

/-- A rotation that has not been seen: it starts at the current identity and ends at another
one, and no accepted rotation starts at either of them. -/
structure Continues (s : IdentityRotationState) (r : IdentityRotation) : Prop where
  current : s.currentIdentity = r.oldIdentity
  differs : r.oldIdentity ≠ r.newIdentity
  unused : ∀ r' ∈ s.rotations, r'.oldIdentity ≠ r.oldIdentity ∧ r'.oldIdentity ≠ r.newIdentity

end IdentityRotationState

open IdentityRotationState

omit [Primitives] in
theorem rotationScan_unused {oldId newId : Octets 32} {rotations : List IdentityRotation}
    (h : rotationScan oldId newId rotations = none) :
    ∀ r ∈ rotations, r.oldIdentity ≠ oldId ∧ r.oldIdentity ≠ newId := by
  induction rotations with
  | nil => simp
  | cons r rest ih =>
      simp only [rotationScan] at h
      split at h
      · cases h
      next hold =>
      split at h
      · cases h
      next hnew =>
      exact List.forall_mem_cons.mpr ⟨⟨hold, hnew⟩, ih h⟩

/-- A valid rotation repeats an accepted one or continues from the current identity. -/
theorem identityRotationValidate_known_or_continues {state : IdentityRotationState}
    {call : RotationCall}
    (h : identityRotationValidate call.rotation state call.roots = .valid) :
    call.edge ∈ state.rotations ∨ state.Continues call.edge := by
  simp only [identityRotationValidate] at h
  split at h
  · cases h
  split at h
  · next oldId newId hold hnew =>
      obtain rfl := identityDerive_eq_some hold
      obtain rfl := identityDerive_eq_some hnew
      split at h
      · cases h
      next hdistinct =>
      split at h
      · next result hscan =>
          subst h
          exact .inl (rotationScan_eq_valid hscan)
      · next hscan =>
          split at h
          · cases h
          next hcurrent =>
          exact .inr ⟨(not_not.mp hcurrent).symm, fun heq => hdistinct (.inl heq),
            rotationScan_unused hscan⟩
  · cases h

/-- What a successful call does: it leaves a state whose current identity is the replacement,
and appends its rotation to any other. -/
theorem identityRotationStep_eq_some {s s' : IdentityRotationState} {call : RotationCall}
    (h : identityRotationStep s call = some s') :
    (call.edge ∈ s.rotations ∨ s.Continues call.edge) ∧
      (s.currentIdentity = call.edge.newIdentity ∧ s' = s ∨
        s.currentIdentity ≠ call.edge.newIdentity ∧ s' = s.extend call.edge) := by
  simp only [identityRotationStep, identityRotationApply] at h
  cases hvalid : identityRotationValidate call.rotation s call.roots with
  | malformed =>
      rw [hvalid] at h
      cases h
  | invalid =>
      rw [hvalid] at h
      cases h
  | valid =>
      refine ⟨identityRotationValidate_known_or_continues hvalid, ?_⟩
      rw [hvalid] at h
      by_cases hcurrent : s.currentIdentity = octetsAt call.rotation 33 32
      · simp only [if_pos hcurrent, Option.some.injEq] at h
        exact .inl ⟨hcurrent, h.symm⟩
      · by_cases hfull : s.rotations.length = authorityMaxRotations
        · simp only [if_neg hcurrent, if_pos hfull] at h
          cases h
        · simp only [if_neg hcurrent, if_neg hfull, Option.some.injEq] at h
          exact .inr ⟨hcurrent, h.symm⟩

theorem identityRotationStep_apply {s s' : IdentityRotationState} {call : RotationCall}
    (h : identityRotationStep s call = some s') :
    (identityRotationApply s call.rotation call.roots).2 = s' := by
  simp only [identityRotationStep] at h
  split at h
  · next hvalid =>
      rw [hvalid]
      exact Option.some.inj h
  · cases h

/-- A call leaves the replacement as the current identity. -/
theorem identityRotationStep_current {s s' : IdentityRotationState} {call : RotationCall}
    (h : identityRotationStep s call = some s') :
    s'.currentIdentity = call.edge.newIdentity := by
  rcases (identityRotationStep_eq_some h).2 with ⟨hcurrent, rfl⟩ | ⟨-, rfl⟩
  · exact hcurrent
  · rfl

/-! ### The calls and the rotations of a run -/

section Run

variable {initial : Octets 32} {calls past : List RotationCall} {call : RotationCall}
  {s : IdentityRotationState}

theorem identityRotationRun_snoc {s' : IdentityRotationState} :
    identityRotationRun initial (calls ++ [call]) = some s' ↔
      ∃ s, identityRotationRun initial calls = some s ∧ identityRotationStep s call = some s' := by
  simp [identityRotationRun, List.foldlM_append, Option.bind_eq_some_iff]

theorem identityRotationRun_of_prefix (hstart : past <+: calls)
    (h : identityRotationRun initial calls = some s) :
    ∃ s', identityRotationRun initial past = some s' := by
  obtain ⟨rest, rfl⟩ := hstart
  rw [identityRotationRun, List.foldlM_append] at h
  obtain ⟨s', hpast, -⟩ := Option.bind_eq_some_iff.mp h
  exact ⟨s', hpast⟩

omit [Primitives] in
theorem identityRotationInitialize_rotations (initial : Octets 32) :
    (identityRotationInitialize initial).rotations = [] ∧
      (identityRotationInitialize initial).currentIdentity =
        (identityRotationInitialize initial).initialIdentity := by
  simp only [identityRotationInitialize]
  split <;> exact ⟨rfl, rfl⟩

/-- The rotations of a state are those of the calls that led to it. -/
theorem mem_rotations_iff (h : identityRotationRun initial calls = some s)
    {r : IdentityRotation} : r ∈ s.rotations ↔ r ∈ calls.map RotationCall.edge := by
  induction calls using List.reverseRecOn generalizing s with
  | nil =>
      obtain rfl := Option.some.inj h
      rw [(identityRotationInitialize_rotations initial).1]
      simp
  | append_singleton calls call ih =>
      obtain ⟨s₀, hrun, hstep⟩ := identityRotationRun_snoc.mp h
      rw [List.map_append, List.mem_append, List.map_singleton, List.mem_singleton, ← ih hrun]
      obtain ⟨hknown, hstate⟩ := identityRotationStep_eq_some hstep
      rcases hstate with ⟨hcurrent, rfl⟩ | ⟨-, rfl⟩
      · -- The current identity is the replacement, so the rotation is no continuation.
        have hmem : call.edge ∈ s.rotations :=
          hknown.resolve_right fun hnew => hnew.differs (hnew.current.symm.trans hcurrent)
        constructor
        · exact .inl
        · rintro (hr | rfl)
          · exact hr
          · exact hmem
      · simp [extend]

/-- A run that repeats no rotation but the one applied last. -/
def RepeatsLastOnly (calls : List RotationCall) : Prop :=
  ∀ past a b, past ++ [a, b] <+: calls → b.edge ∈ (past ++ [a]).map RotationCall.edge →
    b.edge = a.edge

/-- In every state of a run the visited identities are a simple chain, and a repeated
rotation leaves the state as it was. -/
structure RotationRunSound (initial : Octets 32) (calls : List RotationCall) : Prop where
  simple : ∀ past s, past <+: calls → identityRotationRun initial past = some s → s.SimpleChain
  idempotent : ∀ past call s, past ++ [call] <+: calls →
    identityRotationRun initial past = some s → call.edge ∈ past.map RotationCall.edge →
    (identityRotationApply s call.rotation call.roots).2 = s

omit [Primitives] in
/-- A chain is continued by a fresh rotation. -/
theorem IdentityRotationState.SimpleChain.extend (h : s.SimpleChain) {r : IdentityRotation}
    (hr : s.Continues r) : (s.extend r).SimpleChain := by
  have hvisited : (s.extend r).visited = s.visited ++ [r.newIdentity] := by
    simp [visited, IdentityRotationState.extend]
  constructor
  · rw [hvisited, h.linked, hr.current]
    simp [IdentityRotationState.extend]
  · rw [hvisited, List.nodup_append]
    refine ⟨h.distinct, List.nodup_singleton _, ?_⟩
    intro identity hmem replacement hreplacement heq
    obtain rfl := List.mem_singleton.mp hreplacement
    rw [h.linked, heq] at hmem
    rcases List.mem_append.mp hmem with hold | hcurrent
    · obtain ⟨r', hr', hsame⟩ := List.mem_map.mp hold
      exact (hr.unused r' hr').2 hsame
    · exact hr.differs (hr.current.symm.trans (List.mem_singleton.mp hcurrent).symm)

omit [Primitives] in
/-- On a chain a rotation is known by its replacement. -/
theorem IdentityRotationState.SimpleChain.eq_of_newIdentity (h : s.SimpleChain)
    {r r' : IdentityRotation} (hr : r ∈ s.rotations) (hr' : r' ∈ s.rotations)
    (hsame : r.newIdentity = r'.newIdentity) : r = r' := by
  have hnodup : (s.rotations.map IdentityRotation.newIdentity).Nodup :=
    (List.nodup_cons.mp h.distinct).2
  exact List.inj_on_of_nodup_map hnodup hr hr' hsame

theorem simpleChain_of_repeats (hlast : RepeatsLastOnly calls)
    (h : identityRotationRun initial calls = some s) : s.SimpleChain := by
  induction calls using List.reverseRecOn generalizing s with
  | nil =>
      obtain rfl := Option.some.inj h
      obtain ⟨hnone, hcurrent⟩ := identityRotationInitialize_rotations initial
      constructor <;> simp [visited, hnone, hcurrent]
  | append_singleton calls call ih =>
      obtain ⟨s₀, hrun, hstep⟩ := identityRotationRun_snoc.mp h
      have hchain := ih (fun past a b hstart => hlast past a b (hstart.trans ⟨[call], rfl⟩)) hrun
      obtain ⟨hknown, hstate⟩ := identityRotationStep_eq_some hstep
      rcases hstate with ⟨-, rfl⟩ | ⟨hmoves, rfl⟩
      · exact hchain
      · apply hchain.extend
        apply hknown.resolve_left
        -- A known rotation is the one applied last, and its replacement is current.
        intro hmem
        rw [mem_rotations_iff hrun] at hmem
        rcases List.eq_nil_or_concat' calls with rfl | ⟨past, last, rfl⟩
        · cases hmem
        have hsame := hlast past last call ⟨[], by simp⟩ hmem
        obtain ⟨s₁, -, hbefore⟩ := identityRotationRun_snoc.mp hrun
        rw [identityRotationStep_current hbefore, hsame] at hmoves
        exact hmoves rfl

/-- A run of accepted rotations is sound exactly when it repeats no rotation but the one it
has applied last. -/
theorem identity_rotation_run_sound_iff (initial : Octets 32) (calls : List RotationCall)
    (hrun : ∃ s, identityRotationRun initial calls = some s) :
    RotationRunSound initial calls ↔ RepeatsLastOnly calls := by
  obtain ⟨final, hrun⟩ := hrun
  constructor
  · intro hsound past a b hstart hrepeats
    have hsplit : past ++ [a, b] = past ++ [a] ++ [b] := by simp
    rw [hsplit] at hstart
    obtain ⟨s', hs'⟩ := identityRotationRun_of_prefix hstart hrun
    obtain ⟨s, hs, hstep⟩ := identityRotationRun_snoc.mp hs'
    obtain ⟨s₀, -, hbefore⟩ := identityRotationRun_snoc.mp hs
    have hchain := hsound.simple _ s ((List.prefix_append _ _).trans hstart) hs
    have hsame := hsound.idempotent _ b s hstart hs hrepeats
    rw [identityRotationStep_apply hstep] at hsame
    subst hsame
    apply hchain.eq_of_newIdentity
    · exact (mem_rotations_iff hs).mpr hrepeats
    · exact (mem_rotations_iff hs).mpr (by simp)
    · rw [← identityRotationStep_current hstep, ← identityRotationStep_current hbefore]
  · intro hlast
    have hprefixes : ∀ past, past <+: calls → RepeatsLastOnly past :=
      fun past hpast front a b hfront => hlast front a b (hfront.trans hpast)
    constructor
    · intro past s hstart hs
      exact simpleChain_of_repeats (hprefixes past hstart) hs
    · intro past call s hstart hs hrepeats
      rcases List.eq_nil_or_concat' past with rfl | ⟨front, last, rfl⟩
      · cases hrepeats
      have hsame := hlast front last call (by simpa using hstart) hrepeats
      obtain ⟨s', hs'⟩ := identityRotationRun_of_prefix hstart hrun
      obtain ⟨s₁, hs₁, hstep⟩ := identityRotationRun_snoc.mp hs'
      obtain rfl := Option.some.inj (hs.symm.trans hs₁)
      obtain ⟨s₀, -, hbefore⟩ := identityRotationRun_snoc.mp hs
      rw [identityRotationStep_apply hstep]
      rcases (identityRotationStep_eq_some hstep).2 with ⟨-, rfl⟩ | ⟨hmoves, -⟩
      · rfl
      · rw [identityRotationStep_current hbefore, hsame] at hmoves
        exact absurd rfl hmoves

end Run

/-! ## Rotations of the lifecycle component -/

/-- The rotation of a transaction. -/
def Transaction.rotation (tx : Transaction) : Option IdentityRotation :=
  if tx.type = .identityRotate then some ⟨octetsAt tx.record 1 32, octetsAt tx.record 33 32⟩
  else none

/-- The rotations among some transactions, in order. -/
def rotationsOf (txs : List Transaction) : List IdentityRotation :=
  txs.filterMap Transaction.rotation

/-- The identity a lineage of rotations has come to. -/
def lineageEnd (rotations : List IdentityRotation) : Option (Octets 32) :=
  rotations.getLast?.map IdentityRotation.newIdentity

omit [Primitives] in
theorem rotationScan_eq_none_of_unused {oldId newId : Octets 32}
    {rotations : List IdentityRotation}
    (h : ∀ r ∈ rotations, r.oldIdentity ≠ oldId ∧ r.oldIdentity ≠ newId) :
    rotationScan oldId newId rotations = none := by
  induction rotations with
  | nil => rfl
  | cons r rest ih =>
      obtain ⟨⟨hold, hnew⟩, hrest⟩ := List.forall_mem_cons.mp h
      rw [rotationScan, if_neg hold, if_neg hnew]
      exact ih hrest

/-- A correctly signed rotation of an initial identity that no rotation has taken out of use,
to an identity that none has either; neither is a root, and the rotation can be consumed. -/
structure RotationPresented (c : ChainContext) (rotations : List IdentityRotation)
    (consumed : List ReplayId) (record : Bytes) : Prop where
  size : record.length = authorityRotationSize
  version : byteAt record 0 = 1
  old : identityDerive (octetsAt record 1 32) = some (octetsAt record 1 32)
  new : identityDerive (octetsAt record 33 32) = some (octetsAt record 33 32)
  roots : octetsAt record 1 32 ∉ c.genesisAuthorityRoots ∧
    octetsAt record 33 32 ∉ c.genesisAuthorityRoots
  signed : ∃ statement,
    identityRotationStatement (octetsAt record 1 32) (octetsAt record 33 32) = some statement ∧
    identityVerify (octetsAt record 1 32) statement (octetsAt record 65 64) = .valid ∧
    ∃ nonce, lifecycleReplayNonce .identityRotate statement c.hashProvider = .ok nonce ∧
      ⟨octetsAt record 1 32, nonce⟩ ∉ consumed
  origin : octetsAt record 1 32 ∈ c.genesisInitialIdentities
  unused : ∀ r ∈ rotations, r.oldIdentity ≠ octetsAt record 1 32 ∧
    r.oldIdentity ≠ octetsAt record 33 32
  room : rotations.length < authorityMaxRotations

/-- What the lifecycle component keeps about its rotations. -/
structure LifecycleState.Lineage (c : ChainContext) (rotations : List IdentityRotation)
    (s : LifecycleState) : Prop where
  replayed : s.RotationsReplayed c.hashProvider
  origins : s.initialIdentities = c.genesisInitialIdentities
  accepted : s.rotation.rotations = rotations
  current : ∀ identity, lineageEnd rotations = some identity →
    s.rotation.currentIdentity = identity

section Lifecycle

variable {c : ChainContext} {s s' : LifecycleState} {record : Bytes}
  {rotations : List IdentityRotation}

omit [Primitives] in
theorem lineageEnd_append (rotations : List IdentityRotation) (r : IdentityRotation) :
    lineageEnd (rotations ++ [r]) = some r.newIdentity := by
  simp [lineageEnd]

/-- An accepted rotation starts at an initial identity if it is the first, and at the end of
the lineage otherwise, and it is the new end. -/
theorem applyRotate_lineage (hs : s.Lineage c rotations)
    (h : applyRotate s record c.genesisAuthorityRoots c.hashProvider = (.ok, s')) :
    (rotations = [] ∧ octetsAt record 1 32 ∈ c.genesisInitialIdentities ∨
        lineageEnd rotations = some (octetsAt record 1 32)) ∧
      s'.rotation.rotations = rotations ++ [⟨octetsAt record 1 32, octetsAt record 33 32⟩] ∧
      s'.rotation.currentIdentity = octetsAt record 33 32 ∧
      s'.initialIdentities = s.initialIdentities := by
  have hunused := applyRotate_unused hs.replayed h
  obtain rfl := hs.accepted
  simp only [applyRotate] at h
  split at h
  · simp at h
  split at h
  · simp at h
  next horigin =>
  split at h
  · simp at h
  next hvalid =>
  have hvalid := not_not.mp hvalid
  split at h
  · simp at h
  next hcapacity =>
  split at h
  · simp at h
  next statement hstatement =>
  split at h
  · next s₁ hconsume =>
      obtain ⟨nonce, -, -, rfl⟩ := lifecycleConsume_fresh hconsume
      have hseed : (seedRotation s (octetsAt record 1 32)).rotation.rotations =
            s.rotation.rotations ∧
          (seedRotation s (octetsAt record 1 32)).initialIdentities = s.initialIdentities := by
        simp only [seedRotation]
        split <;> exact ⟨rfl, rfl⟩
      obtain ⟨hrotations, horigins⟩ := hseed
      have hcontinues : (seedRotation s (octetsAt record 1 32)).rotation.Continues
          (⟨record, c.genesisAuthorityRoots⟩ : RotationCall).edge :=
        (identityRotationValidate_known_or_continues hvalid).resolve_left fun hknown =>
          hunused _ (hrotations ▸ hknown) rfl
      have hmoves : (seedRotation s (octetsAt record 1 32)).rotation.currentIdentity ≠
          octetsAt record 33 32 := by
        rw [hcontinues.current]
        exact hcontinues.differs
      have hfull : (seedRotation s (octetsAt record 1 32)).rotation.rotations.length ≠
          authorityMaxRotations := by omega
      simp only [identityRotationApply, hvalid, if_neg hmoves, if_neg hfull] at h
      obtain ⟨-, rfl⟩ := Prod.mk.inj h
      refine ⟨?_, by rw [hrotations], rfl, horigins⟩
      by_cases hfirst : s.rotation.rotations = []
      · refine .inl ⟨hfirst, ?_⟩
        rw [← hs.origins]
        by_contra hforeign
        exact horigin ⟨hfirst, hforeign⟩
      · right
        have hcurrent := hcontinues.current
        simp only [seedRotation, if_neg hfirst] at hcurrent
        obtain ⟨front, last, hlast⟩ :=
          (List.eq_nil_or_concat' s.rotation.rotations).resolve_left hfirst
        have hend := lineageEnd_append front last
        rw [← hlast] at hend
        rw [hend, ← hs.current _ hend, hcurrent]
        rfl
  · next hne _ => exact absurd (Prod.mk.inj h).1 hne

omit [Primitives] in
theorem lifecycleReplayNonce_ne_zero {type : TransactionType} {statement : Bytes}
    {provider : HashProvider} {nonce : Octets 32}
    (h : lifecycleReplayNonce type statement provider = .ok nonce) : nonce ≠ 0 := by
  simp only [lifecycleReplayNonce] at h
  split at h
  · cases h
  split at h
  · cases h
  split at h
  · cases h
  split at h
  · cases h
  next hnonzero =>
  exact Except.ok.inj h ▸ hnonzero

/-- A rotation presented correctly is accepted when it starts a lineage or continues it. -/
theorem applyRotate_accepts (hroots : authorityRootSetValidate c.genesisAuthorityRoots = true)
    (hs : s.Lineage c rotations) (hroom : s.replay.consumed.length < s.replay.capacity)
    (hpresented : RotationPresented c rotations s.replay.consumed record)
    (hplace : rotations = [] ∨ lineageEnd rotations = some (octetsAt record 1 32)) :
    ∃ s', applyRotate s record c.genesisAuthorityRoots c.hashProvider = (.ok, s') := by
  obtain rfl := hs.accepted
  obtain ⟨statement, hstatement, hverify, nonce, hnonce, hfresh⟩ := hpresented.signed
  have horigin : ¬ (s.rotation.rotations = [] ∧ octetsAt record 1 32 ∉ s.initialIdentities) := by
    rw [hs.origins]
    exact fun h => h.2 hpresented.origin
  have hseed : (seedRotation s (octetsAt record 1 32)).rotation.rotations =
        s.rotation.rotations ∧
      (seedRotation s (octetsAt record 1 32)).replay = s.replay ∧
      (seedRotation s (octetsAt record 1 32)).rotation.currentIdentity =
        octetsAt record 1 32 := by
    simp only [seedRotation]
    split
    · exact ⟨rfl, rfl, rfl⟩
    · next hnonempty => exact ⟨rfl, rfl, hs.current _ (hplace.resolve_left hnonempty)⟩
  obtain ⟨hrotations, hreplay, hcurrent⟩ := hseed
  have hdiffers : octetsAt record 1 32 ≠ octetsAt record 33 32 := by
    intro heq
    simp [identityRotationStatement, hpresented.new, heq] at hstatement
  have hroom' := hpresented.room
  have hvalid : identityRotationValidate record
      (seedRotation s (octetsAt record 1 32)).rotation c.genesisAuthorityRoots = .valid := by
    have hscan := rotationScan_eq_none_of_unused hpresented.unused
    have hcount : ¬ (s.rotation.rotations.length > authorityMaxRotations) := by omega
    simp [identityRotationValidate, hpresented.size, hpresented.version, hrotations, hroots,
      hcount, hpresented.old, hpresented.new, hpresented.roots.1, hpresented.roots.2, hdiffers,
      hscan, hcurrent, hstatement, hverify, statementVerdict]
  have hconsume : lifecycleConsume (seedRotation s (octetsAt record 1 32)) (octetsAt record 1 32)
      .identityRotate statement c.hashProvider =
      (.ok, { seedRotation s (octetsAt record 1 32) with replay := { s.replay with
        consumed := s.replay.consumed ++ [⟨octetsAt record 1 32, nonce⟩] } }) := by
    have hlong : ¬ (s.replay.consumed.length > s.replay.capacity) := by omega
    have hfull : s.replay.consumed.length ≠ s.replay.capacity := by omega
    have hid : replayIdFromSignerNonce (octetsAt record 1 32) nonce =
        some ⟨octetsAt record 1 32, nonce⟩ := by
      simp only [replayIdFromSignerNonce, hpresented.old,
        if_neg (lifecycleReplayNonce_ne_zero hnonce)]
    simp [lifecycleConsume, hnonce, consumeReplayId, hid, hreplay, replayStateCheck,
      replayStateConsume, hlong, hfull, hfresh]
  have hfull : ¬ (s.rotation.rotations.length ≥ authorityMaxRotations) := by omega
  have hfull' : s.rotation.rotations.length ≠ authorityMaxRotations := by omega
  simp [applyRotate, hpresented.size, horigin, hvalid, hrotations, hfull, hfull', hstatement,
    hconsume, identityRotationApply, hcurrent, hdiffers, mapStatementResult]

/-- Every lifecycle transaction keeps the lineage, and a rotation continues it. -/
theorem lifecycleApplyTransaction_lineage {tx : Transaction} (hs : s.Lineage c rotations)
    (h : lifecycleApplyTransaction s tx c.genesisAuthorityRoots c.hashProvider = (.ok, s')) :
    s'.Lineage c (rotations ++ tx.rotation.toList) := by
  have hreplayed := RotationsReplayed.apply hs.replayed h
  by_cases htype : tx.type = .identityRotate
  · simp only [lifecycleApplyTransaction, htype] at h
    obtain ⟨-, hrotations, hcurrent, horigins⟩ := applyRotate_lineage hs h
    have hrotation : tx.rotation.toList =
        [⟨octetsAt tx.record 1 32, octetsAt tx.record 33 32⟩] := by
      simp [Transaction.rotation, htype]
    refine ⟨hreplayed, horigins.trans hs.origins, hrotation ▸ hrotations, ?_⟩
    intro identity hend
    rw [hrotation, lineageEnd_append] at hend
    rw [hcurrent]
    exact Option.some.inj hend
  · have hnone : tx.rotation.toList = [] := by simp [Transaction.rotation, htype]
    have hsame := (lifecycleApplyTransaction_rotations h).2 htype
    rw [hnone, List.append_nil]
    refine ⟨hreplayed, ?_, hsame ▸ hs.accepted, hsame ▸ hs.current⟩
    rw [← hs.origins]
    simp only [lifecycleApplyTransaction] at h
    split at h
    · obtain ⟨-, id, rfl⟩ := applyGrant_eq_ok h
      rfl
    · obtain ⟨authority, id, rfl⟩ := applyRevoke_eq_ok h
      rfl
    · next hrotate => exact absurd hrotate htype
    · split at h
      · simp at h
      · obtain ⟨id, -, -, rfl⟩ := consumeReplayId_eq_ok h
        rfl
    · simp at h

end Lifecycle

/-! ## The lineage of a history -/

section History

variable {c : ChainContext} {env : CandidateEnv} {s s' : ChainState} {ts : List Bytes}
  {rotations : List IdentityRotation}

omit [Primitives] in
theorem rotationsOf_append (txs txs' : List Transaction) :
    rotationsOf (txs ++ txs') = rotationsOf txs ++ rotationsOf txs' :=
  List.filterMap_append

omit [Primitives] in
theorem rotationsOf_cons (tx : Transaction) (txs : List Transaction) :
    rotationsOf (tx :: txs) = tx.rotation.toList ++ rotationsOf txs := by
  simp only [rotationsOf, List.filterMap_cons]
  cases tx.rotation <;> rfl

/-- A round that hands its rotation on continues the lineage with it. -/
theorem applyTransaction_lineage {tx : Transaction} (henv : env.context = c)
    (hflag : tx.type = .identityRotate → env.hasLifecycle = true)
    (hs : s.lifecycle.Lineage c rotations) (h : applyTransaction env tx s = .ok s') :
    s'.lifecycle.Lineage c (rotations ++ tx.rotation.toList) := by
  by_cases htype : tx.type = .identityRotate
  · cases stepOf_of_applyTransaction h with
    | lifecycle _ happly =>
        rcases applyLifecycle_eq_ok happly with ⟨-, hnone | ⟨hpublication, -⟩⟩ | ⟨-, -, hnext⟩
        · rw [hflag htype] at hnone
          cases hnone
        · rw [htype] at hpublication
          cases hpublication
        · exact lifecycleApplyTransaction_lineage hs (henv ▸ hnext)
    | issuance htype' _ | transfer htype' _ | destination htype' _ | contract htype' _
    | share htype' _ => simp [htype] at htype'
  · rcases applyTransaction_lifecycle h with hsame | hnext
    · have hnone : tx.rotation.toList = [] := by simp [Transaction.rotation, htype]
      rw [hnone, List.append_nil, hsame]
      exact hs
    · exact lifecycleApplyTransaction_lineage hs (henv ▸ hnext)

theorem Applied.lineage (henv : env.context = c) (h : Applied env ts s s')
    (hflag : ∀ tx ∈ decodedTransactions ts, tx.type = .identityRotate → env.hasLifecycle = true)
    (hs : s.lifecycle.Lineage c rotations) :
    s'.lifecycle.Lineage c (rotations ++ rotationsOf (decodedTransactions ts)) := by
  induction h generalizing rotations with
  | nil => simpa [rotationsOf] using hs
  | single hdecode _ hstep _ ih =>
      rw [decodedTransactions_cons hdecode] at hflag ⊢
      obtain ⟨hhead, htail⟩ := List.forall_mem_cons.mp hflag
      rw [rotationsOf_cons, ← List.append_assoc]
      exact ih htail (applyTransaction_lineage henv hhead hs hstep)
  | pair hdecode htype hstep _ ih =>
      obtain ⟨_, tx', _, _, _, _, _, hdecode', htype', _, _, _, _, _, rfl⟩ := applyPair_eq_ok hstep
      rw [decodedTransactions_cons hdecode, decodedTransactions_cons hdecode'] at hflag ⊢
      have htail := (List.forall_mem_cons.mp (List.forall_mem_cons.mp hflag).2).2
      rw [rotationsOf_cons, rotationsOf_cons]
      simp only [Transaction.rotation, htype, htype']
      exact ih htail hs

theorem lifecycleNew_lineage (hcontext : contextValid c = .ok ()) :
    (lifecycleNew c).Lineage c [] := by
  have hrotations := lifecycleNew_rotations c
  refine ⟨?_, ?_, hrotations, fun identity hend => by cases hend⟩
  · intro r hr
    rw [hrotations] at hr
    cases hr
  · have hvalid : initialSetValid c.genesisInitialIdentities = true := by
      simp only [contextValid] at hcontext
      split at hcontext
      · cases hcontext
      split at hcontext
      · cases hcontext
      next hvalid => simpa using hvalid
    simp only [initialSetValid, Bool.and_eq_true, decide_eq_true_eq] at hvalid
    simp only [lifecycleNew, lifecycleSetInitialIdentities, if_neg (not_lt.mpr hvalid.1)]

omit [Primitives] in
theorem LifecycleState.Lineage.inherit {prior candidate : ChainState}
    (hs : prior.lifecycle.Lineage c rotations) (h : ComponentsOf prior candidate) :
    candidate.lifecycle.Lineage c rotations := by
  obtain ⟨grants, replays, hlifecycle⟩ := h.lifecycle
  rw [hlifecycle]
  exact ⟨hs.replayed, hs.origins, hs.accepted, hs.current⟩

/-- The lineage after some transactions of a candidate on a state with a lineage. -/
theorem CandidatePrepared.lineage {prior candidate before : ChainState} {bytes : Bytes}
    {reconstruct : Bool} {b : Block} {flags : CandidateFlags} {history : Option (List Bytes)}
    (hprepared : CandidatePrepared c prior bytes reconstruct b flags candidate)
    (hprior : prior.lifecycle.Lineage c rotations) {pre post : List Bytes}
    (hsplit : b.transactions = pre ++ post)
    (hpre : Applied (candidateEnv c prior history b flags) pre candidate before) :
    before.lifecycle.Lineage c (rotations ++ rotationsOf (decodedTransactions pre)) := by
  obtain ⟨-, -, -, -, -, -, hinherit⟩ := hprepared.next_state
  refine hpre.lineage rfl (fun tx htx htype => ?_) (hprior.inherit hinherit)
  obtain ⟨t, ht, hdecode⟩ := mem_decodedTransactions.mp htx
  apply hprepared.hasLifecycle (mem_decodedTransactions.mpr ⟨t, by simp [hsplit, ht], hdecode⟩)
  · rw [htype]
    rfl
  · intro hpublication
    rw [htype] at hpublication
    cases hpublication

/-- The lifecycle of a history holds its rotations, in order. -/
theorem Reaches.lineage {blocks : List Bytes} (h : Reaches c blocks s) :
    s.lifecycle.Lineage c (rotationsOf (historyTransactions blocks)) := by
  refine h.invariant
    (P := fun blocks s => s.lifecycle.Lineage c (rotationsOf (historyTransactions blocks))) ?_ ?_
  · intro s hs
    obtain ⟨hcontext, activation, -, rfl⟩ := chainInitialize_eq_ok hs
    exact lifecycleNew_lineage hcontext
  · intro past s bytes b flags candidate s' _ hs hprepared happlied
    have hdone := hprepared.lineage hs (List.append_nil _).symm happlied
    rw [historyTransactions_append, historyTransactions_singleton hprepared.decode,
      rotationsOf_append]
    exact hdone

/-- The transactions of a body leave room for the rest. -/
theorem Applied.room (h : Applied env ts s s') {n : ℕ}
    (hroom : RoomFor env s (ts.length + n) (ts.length + n)) : RoomFor env s' n n := by
  induction h with
  | nil => simpa using hroom
  | @single bytes tx rest s s₁ s' _ _ hstep _ ih =>
      have hgranted := tx.length_granted_le
      apply ih
      apply applyTransaction_room hstep
      apply hroom.mono
      · rw [List.length_cons]
        omega
      · rw [List.length_cons]
        omega
  | pair _ _ hstep _ ih =>
      apply ih
      apply applyPair_room hstep
      apply hroom.mono
      · rw [List.length_cons, List.length_cons]
        omega
      · rw [List.length_cons, List.length_cons]
        omega

/-- Rotations form one lineage: a rotation is accepted only as the first, from an initial
identity, or from the lineage's end; and a correctly signed rotation of an initial identity
out of use nowhere is accepted exactly when no rotation was accepted before or the lineage
has come to that identity. -/
theorem rotation_single_lineage {past : List Bytes} {prior candidate before : ChainState}
    {bytes : Bytes} {reconstruct : Bool} {b : Block} {flags : CandidateFlags}
    {history : Option (List Bytes)} {pre post : List Bytes} {t : Bytes} {tx : Transaction}
    (hprior : Reaches c past prior)
    (hprepared : CandidatePrepared c prior bytes reconstruct b flags candidate)
    (hsplit : b.transactions = pre ++ t :: post)
    (hpre : Applied (candidateEnv c prior history b flags) pre candidate before)
    (hdecode : transactionDecode t = .ok tx) (htype : tx.type = .identityRotate) :
    let rotations := rotationsOf (historyTransactions past ++ decodedTransactions pre)
    let accepted := ∃ after,
      applyTransaction (candidateEnv c prior history b flags) tx before = .ok after
    (accepted → rotations = [] ∧ octetsAt tx.record 1 32 ∈ c.genesisInitialIdentities ∨
        lineageEnd rotations = some (octetsAt tx.record 1 32)) ∧
      (RotationPresented c rotations before.lifecycle.replay.consumed tx.record →
        (accepted ↔
          rotations = [] ∨ lineageEnd rotations = some (octetsAt tx.record 1 32))) := by
  intro rotations accepted
  have hlineage : before.lifecycle.Lineage c rotations := by
    have hbefore := hprepared.lineage hprior.lineage hsplit hpre
    rwa [← rotationsOf_append] at hbefore
  have hflag : flags.lifecycle = true := by
    have hmem : tx ∈ decodedTransactions b.transactions :=
      mem_decodedTransactions.mpr ⟨t, by simp [hsplit], hdecode⟩
    apply hprepared.hasLifecycle hmem
    · rw [htype]
      rfl
    · intro hpublication
      rw [htype] at hpublication
      cases hpublication
  have hneeds : accepted → rotations = [] ∧
      octetsAt tx.record 1 32 ∈ c.genesisInitialIdentities ∨
        lineageEnd rotations = some (octetsAt tx.record 1 32) := by
    rintro ⟨after, hround⟩
    cases stepOf_of_applyTransaction hround with
    | lifecycle _ happly =>
        rcases applyLifecycle_eq_ok happly with ⟨-, hnone | ⟨hpublication, -⟩⟩ | ⟨-, -, hnext⟩
        · simp [candidateEnv, hflag] at hnone
        · rw [htype] at hpublication
          cases hpublication
        · simp only [lifecycleApplyTransaction, htype] at hnext
          exact (applyRotate_lineage hlineage hnext).1
    | issuance htype' _ | transfer htype' _ | destination htype' _ | contract htype' _
    | share htype' _ => simp [htype] at htype'
  refine ⟨hneeds, fun hpresented => ⟨fun haccepted => (hneeds haccepted).imp_left And.left, ?_⟩⟩
  intro hplace
  have hroots : authorityRootSetValidate c.genesisAuthorityRoots = true := by
    have hcontext := hprepared.context
    simp only [contextValid] at hcontext
    split at hcontext
    · cases hcontext
    next hvalid => simpa using hvalid
  have hspare : before.lifecycle.replay.consumed.length < before.lifecycle.replay.capacity := by
    have hroom := hprepared.room history
    rw [hsplit, List.length_append, List.length_cons] at hroom
    have := (hpre.room (n := post.length + 1) hroom hflag).replays
    omega
  obtain ⟨lifecycle, happly⟩ := applyRotate_accepts hroots hlineage hspare hpresented hplace
  refine ⟨{ before with lifecycle }, ?_⟩
  simp [applyTransaction, htype, applyLifecycle, candidateEnv, hflag, lifecycleApplyTransaction,
    happly, lifecycleStatus]

end History

end

section Sample

namespace Sample

/-- The first identity rotates to the second. -/
def firstCall : RotationCall := ⟨rotationRecord first second firstSignature, []⟩

/-- The second identity rotates to the third. -/
def secondCall : RotationCall := ⟨rotationRecord second third secondSignature, []⟩

end Sample

attribute [local instance] Sample.rotating

open Sample

/-- The first rotation, applied again after the second, makes the second identity current
again. -/
theorem sample_rotation_run_unsound :
    (∃ s, identityRotationRun first [firstCall, secondCall, firstCall] = some s) ∧
      ¬ RotationRunSound first [firstCall, secondCall, firstCall] := by
  have hrun : identityRotationRun first [firstCall, secondCall, firstCall] =
      some ⟨first, second, [⟨first, second⟩, ⟨second, third⟩, ⟨first, second⟩]⟩ := by
    decide +kernel
  refine ⟨⟨_, hrun⟩, fun hsound => ?_⟩
  have hchain := hsound.simple _ _ (List.prefix_refl _) hrun
  exact absurd hchain.distinct (by decide +kernel)

/-- Two rotations in a row form a chain. -/
theorem sample_rotation_run_sound : RotationRunSound first [firstCall, secondCall] := by
  have hrun : ∃ s, identityRotationRun first [firstCall, secondCall] = some s :=
    Option.isSome_iff_exists.mp (by decide +kernel)
  apply (identity_rotation_run_sound_iff first _ hrun).mpr
  intro past a b hstart hrepeats
  have hlength := hstart.length_le
  obtain rfl : past = [] := by
    rw [List.length_append] at hlength
    exact List.length_eq_zero_iff.mp (by simpa using hlength)
  obtain ⟨rest, hsplit⟩ := hstart
  obtain ⟨rfl, htail⟩ := List.cons_eq_cons.mp hsplit
  obtain ⟨rfl, -⟩ := List.cons_eq_cons.mp htail
  exact absurd hrepeats (by decide +kernel)

/-- The second rotation of the sample block was accepted, from the end the first one left. -/
theorem sample_rotation_lineage : ∃ prior b flags candidate before after,
    Reaches rotatingContext [] prior ∧
      Applied (candidateEnv rotatingContext prior (some []) b flags)
        [rotate first second firstSignature, publication] candidate before ∧
      applyTransaction (candidateEnv rotatingContext prior (some []) b flags)
        ⟨1, .identityRotate, rotationRecord second third secondSignature⟩ before = .ok after ∧
      let rotations := rotationsOf (historyTransactions [] ++
        decodedTransactions [rotate first second firstSignature, publication])
      let old := octetsAt (rotationRecord second third secondSignature) 1 32
      (rotations = [] ∧ old ∈ rotatingContext.genesisInitialIdentities ∨
        lineageEnd rotations = some old) := by
  obtain ⟨s, hs⟩ : ∃ s, Accepts rotatingContext [rotatingGenesis] s :=
    accepts_of_isSome (by decide +kernel)
  obtain ⟨b, hdecode, htransactions⟩ := sample_rotations_block
  have hsecond : transactionDecode (rotate second third secondSignature) =
      .ok ⟨1, .identityRotate, rotationRecord second third secondSignature⟩ := by
    decide +kernel
  have hall : Reaches rotatingContext ([] ++ rotatingGenesis :: []) s := (accepts_iff.mp hs).2
  obtain ⟨prior, s', hprior, hstep, -⟩ := hall.step_at
  obtain ⟨b', flags, candidate, hprepared, happlied⟩ := reconstructStep_eq_ok_iff.mp hstep
  obtain rfl := Except.ok.inj (hdecode.symm.trans hprepared.decode)
  have hsplit : b.transactions = [rotate first second firstSignature, publication] ++
      rotate second third secondSignature :: [] := htransactions
  rw [hsplit] at happlied
  obtain ⟨before, after, hpre, hround, -⟩ := happlied.round_at hsecond (by simp) rfl
  exact ⟨prior, b, flags, candidate, before, after, hprior, hpre, hround,
    (rotation_single_lineage hprior hprepared hsplit hpre hsecond rfl).1 ⟨after, hround⟩⟩

end Sample

/-! ## A second initial identity -/

section Sample

namespace Sample

/-- Another initial identity. -/
def fourth : Octets 32 :=
  0xed4928c628d1c2c6eae90338905995612959273a5c63f93636c14614ac8737d1

/-- The identity it asks to be rotated to. -/
def fifth : Octets 32 :=
  0xca93ac1705187071d67b83c7ff0efe8108e8ec4530575d7726879333dbdabe7c

/-- Its signature of its rotation. -/
def fourthSignature : Octets 64 :=
  BitVec.ofNat 512 (0x3ecf3ceba3700c402c05d51dde92d3d8e044c542a573edff79060b375de14e54 * 2 ^ 256 +
    0xdd99cf616d83ed2e826667b3482876dfdfeedb2f4ff80a393d32984216ab4300)

/-- SHA-256 and Ed25519 as far as its rotation and the others ask for them. -/
@[reducible] def branching : Primitives where
  sha256 domain bytes := .ok (BitVec.ofNat 256 ((((0xf8da6e61236aeee,
      0x1f07d10f9b6d67dbffb784b6aa08e524f9577539b17bb6566f1bf396e27f36dd) ::
    rotationDigests ++ digests).lookup
      (BigEndian.read (domain ++ bytes) % (2 ^ 61 - 1))).getD 1))
  ed25519Verify statement key signature :=
    rotating.ed25519Verify statement key signature ||
      decide ((statement, key, signature) =
        (rotationStatement fourth fifth, fourth, fourthSignature))

/-- The contexts of two genesis blocks with both initial identities. -/
def branchingContext (genesisBytes : Bytes) : ChainContext :=
  { context with
    genesisBytes
    genesisInitialIdentities := [first, fourth]
    hashProvider := ⟨some branching.sha256⟩ }

/-- The record of its rotation. -/
def fourthRecord : Bytes := rotationRecord fourth fifth fourthSignature

end Sample

attribute [local instance] Sample.branching

open Sample

theorem sample_fourth_presented {genesisBytes : Bytes} {rotations : List IdentityRotation}
    {consumed : List ReplayId} (hunused : (rotations.all fun r =>
      decide (r.oldIdentity ≠ fourth) && decide (r.oldIdentity ≠ fifth)) = true)
    (hroom : rotations.length < 256) (hfresh : consumed.all (·.signer ≠ fourth) = true) :
    RotationPresented (branchingContext genesisBytes) rotations consumed fourthRecord := by
  have hfourth : octetsAt fourthRecord 1 32 = fourth := by decide +kernel
  have hfifth : octetsAt fourthRecord 33 32 = fifth := by decide +kernel
  refine ⟨by decide +kernel, by decide +kernel, by decide +kernel, by decide +kernel,
    ⟨by simp [branchingContext, context], by simp [branchingContext, context]⟩,
    ⟨rotationStatement fourth fifth, by decide +kernel, by decide +kernel,
      0x1f07d10f9b6d67dbffb784b6aa08e524f9577539b17bb6566f1bf396e27f36dd, ?_, ?_⟩, ?_, ?_, hroom⟩
  · have hdigest : lifecycleReplayNonce .identityRotate (rotationStatement fourth fifth)
        ⟨some branching.sha256⟩ =
        .ok 0x1f07d10f9b6d67dbffb784b6aa08e524f9577539b17bb6566f1bf396e27f36dd := by
      decide +kernel
    exact hdigest
  · intro hmem
    have := List.all_eq_true.mp hfresh _ hmem
    simp [hfourth] at this
  · rw [hfourth]
    simp [branchingContext]
  · intro r hr
    rw [hfourth, hfifth]
    simpa using List.all_eq_true.mp hunused r hr

/-- The same rotation of an initial identity is accepted after a genesis block without
rotations, and refused after one that rotates another initial identity. -/
theorem sample_lineages_dependent : ∃ s s',
    Accepts (branchingContext genesis) [genesis] s ∧
      Accepts (branchingContext rotatingGenesis) [rotatingGenesis] s' ∧
      RotationPresented (branchingContext genesis) (rotationsOf (historyTransactions [genesis]))
        s.lifecycle.replay.consumed fourthRecord ∧
      RotationPresented (branchingContext rotatingGenesis)
        (rotationsOf (historyTransactions [rotatingGenesis]))
        s'.lifecycle.replay.consumed fourthRecord ∧
      (∃ after, applyRotate (lifecycleRebind s.lifecycle 0 1) fourthRecord
        (branchingContext genesis).genesisAuthorityRoots (branchingContext genesis).hashProvider =
          (.ok, after)) ∧
      ∀ grants replays after, applyRotate (lifecycleRebind s'.lifecycle grants replays)
        fourthRecord (branchingContext rotatingGenesis).genesisAuthorityRoots
          (branchingContext rotatingGenesis).hashProvider ≠ (.ok, after) := by
  obtain ⟨s, hs, hnone⟩ := accepts_of_any (branchingContext genesis) [genesis]
    (fun s => s.lifecycle.replay.consumed.isEmpty) (by decide +kernel)
  obtain ⟨s', hs', hfresh⟩ := accepts_of_any (branchingContext rotatingGenesis) [rotatingGenesis]
    (fun s => s.lifecycle.replay.consumed.all (·.signer ≠ fourth)) (by decide +kernel)
  have hempty : s.lifecycle.replay.consumed = [] := List.isEmpty_iff.mp hnone
  have hrotations : rotationsOf (historyTransactions [genesis]) = [] := by decide +kernel
  have hrotations' : rotationsOf (historyTransactions [rotatingGenesis]) =
      [⟨first, second⟩, ⟨second, third⟩] := by decide +kernel
  have hlineage := (accepts_iff.mp hs).2.lineage
  have hlineage' := (accepts_iff.mp hs').2.lineage
  have hpresented : RotationPresented (branchingContext genesis)
      (rotationsOf (historyTransactions [genesis])) s.lifecycle.replay.consumed fourthRecord := by
    apply sample_fourth_presented
    · simp [hrotations]
    · simp [hrotations]
    · simp [hempty]
  have hpresented' : RotationPresented (branchingContext rotatingGenesis)
      (rotationsOf (historyTransactions [rotatingGenesis]))
      s'.lifecycle.replay.consumed fourthRecord := by
    apply sample_fourth_presented
    · rw [hrotations']
      decide +kernel
    · simp [hrotations']
    · exact hfresh
  refine ⟨s, s', hs, hs', hpresented, hpresented', ?_, ?_⟩
  · have hrebound : (lifecycleRebind s.lifecycle 0 1).Lineage (branchingContext genesis)
        (rotationsOf (historyTransactions [genesis])) :=
      ⟨hlineage.replayed, hlineage.origins, hlineage.accepted, hlineage.current⟩
    have hroots : authorityRootSetValidate (branchingContext genesis).genesisAuthorityRoots =
        true := rfl
    have hspare : (lifecycleRebind s.lifecycle 0 1).replay.consumed.length <
        (lifecycleRebind s.lifecycle 0 1).replay.capacity := by
      simp [lifecycleRebind, hempty]
    exact applyRotate_accepts hroots hrebound hspare hpresented (.inl hrotations)
  · intro grants replays after haccepted
    have hrebound : (lifecycleRebind s'.lifecycle grants replays).Lineage
        (branchingContext rotatingGenesis) (rotationsOf (historyTransactions [rotatingGenesis])) :=
      ⟨hlineage'.replayed, hlineage'.origins, hlineage'.accepted, hlineage'.current⟩
    have hplace := (applyRotate_lineage hrebound haccepted).1
    rw [hrotations'] at hplace
    exact absurd hplace (by decide +kernel)

end Sample

end StnChain
