import StnChain.Chain.State

/-!
# The components of a candidate state

A candidate gets its own copy of each component its block may change, with room
for one block's entries, and shares the others with the prior state
(`stn_chain.c`).  `ComponentsOf` records that copies hold what their sources hold.
-/

namespace StnChain

variable [Primitives]

/-! ## Flags -/

/-- The component flags of `validate_candidate`. -/
structure CandidateFlags where
  lifecycle : Bool := false
  contracts : Bool := false
  shares : Bool := false
  blockCompensation : Bool := false
  compensation : Bool := false
  issuance : Bool := false
  transfer : Bool := false
  deriving DecidableEq, Repr

/-- The economy is cloned for issuances, transfers and block compensation. -/
def CandidateFlags.economy (flags : CandidateFlags) : Bool :=
  flags.issuance || flags.transfer || flags.blockCompensation

/-- Some component changes. -/
def CandidateFlags.any (flags : CandidateFlags) : Bool :=
  flags.lifecycle || flags.contracts || flags.shares || flags.blockCompensation ||
    flags.compensation || flags.issuance || flags.transfer

/-! ## Clones -/

/-- `STN_BLOCK_MAX_TRANSACTIONS` further entries fit a clone. -/
def cloneCapacity (count : ℕ) : ℕ := count + blockMaxTransactions

/-- `lifecycle_clone`. -/
def lifecycleClone (s : LifecycleState) : LifecycleState :=
  lifecycleRebind s (cloneCapacity s.grants.length) (cloneCapacity s.replay.consumed.length)

/-- `share_clone`. -/
def shareClone (s : ShareReplayState) : Option ShareReplayState :=
  if s.consumed.length > s.capacity then none
  else some { s with capacity := cloneCapacity s.consumed.length }

/-- `block_compensation_clone`. -/
def blockCompensationClone (s : BlockCompensationReplay) : Option BlockCompensationReplay :=
  (blockCompensationReplayCopy s).toOption

/-- `compensation_clone`. -/
def compensationClone (s : CompensationState) : Option CompensationState :=
  if s.entries.length > s.capacity then none
  else some { s with capacity := cloneCapacity s.entries.length }

/-- `economic_clone`. -/
def economicClone (s : ChainEconomy) : Option ChainEconomy :=
  if s.state.balances.length > s.state.capacity then none
  else if s.replay.consumed.length > s.replay.capacity then none
  else some {
    state := { s.state with capacity := cloneCapacity s.state.balances.length }
    replay := { s.replay with capacity := cloneCapacity s.replay.consumed.length } }

/-- The room left in an owned lifecycle snapshot suffices for a block. -/
def lifecycleReusable (s : LifecycleState) (count : ℕ) : Bool :=
  s.grants.length ≤ s.grantCapacity && s.replay.consumed.length ≤ s.replay.capacity &&
    count ≤ s.grantCapacity - s.grants.length &&
    count ≤ s.replay.capacity - s.replay.consumed.length

/-- The lifecycle component of a candidate: reconstruction, which owns the prior
state alone, writes into its snapshot while there is room. -/
def candidateLifecycle (s : LifecycleState) (count : ℕ) (reconstruct : Bool) : LifecycleState :=
  if reconstruct && lifecycleReusable s count then s else lifecycleClone s

/-- A component is cloned when a flag asks for it. -/
def cloneIf {α : Type} (flag : Bool) (clone : α → Option α) (a : α) : Option α :=
  if flag then clone a else some a

/-- The candidate's components; `none` is a clone that fails. -/
def candidateComponents (flags : CandidateFlags) (count : ℕ) (reconstruct : Bool)
    (next : ChainState) : Option ChainState := do
  let shares ← cloneIf flags.shares shareClone next.shares
  let blockCompensation ←
    cloneIf flags.blockCompensation blockCompensationClone next.blockCompensation
  let compensation ← cloneIf flags.compensation compensationClone next.compensation
  let economy ← cloneIf flags.economy economicClone next.economy
  let contracts ← cloneIf flags.contracts contractSnapshotClone next.contracts
  pure { next with
    lifecycle := if flags.lifecycle then candidateLifecycle next.lifecycle count reconstruct
      else next.lifecycle
    shares, blockCompensation, compensation, economy, contracts }

/-! ## What clones hold -/

/-- Two states agree on everything but their components. -/
structure SameTip (s t : ChainState) : Prop where
  networkId : t.networkId = s.networkId
  genesisId : t.genesisId = s.genesisId
  tipId : t.tipId = s.tipId
  height : t.height = s.height
  timestamp : t.timestamp = s.timestamp
  hasTip : t.hasTip = s.hasTip
  currentTarget : t.currentTarget = s.currentTarget
  cumulativeWork : t.cumulativeWork = s.cumulativeWork
  targetHistory : t.targetHistory = s.targetHistory
  activation : t.publicationActivationHeight = s.publicationActivationHeight

omit [Primitives] in
theorem SameTip.refl (s : ChainState) : SameTip s s :=
  ⟨rfl, rfl, rfl, rfl, rfl, rfl, rfl, rfl, rfl, rfl⟩

omit [Primitives] in
theorem SameTip.trans {s t u : ChainState} (h : SameTip s t) (h' : SameTip t u) : SameTip s u :=
  ⟨h'.networkId.trans h.networkId, h'.genesisId.trans h.genesisId, h'.tipId.trans h.tipId,
    h'.height.trans h.height, h'.timestamp.trans h.timestamp, h'.hasTip.trans h.hasTip,
    h'.currentTarget.trans h.currentTarget, h'.cumulativeWork.trans h.cumulativeWork,
    h'.targetHistory.trans h.targetHistory, h'.activation.trans h.activation⟩

omit [Primitives] in
/-- Replacing components leaves the rest as it is. -/
theorem SameTip.components {s : ChainState} {lifecycle : LifecycleState}
    {contracts : ContractSnapshot} {shares : ShareReplayState}
    {blockCompensation : BlockCompensationReplay} {compensation : CompensationState}
    {economy : ChainEconomy} :
    SameTip s { s with lifecycle, contracts, shares, blockCompensation, compensation, economy } :=
  ⟨rfl, rfl, rfl, rfl, rfl, rfl, rfl, rfl, rfl, rfl⟩

/-- A candidate's components hold what the prior's hold. -/
structure ComponentsOf (next candidate : ChainState) : Prop where
  lifecycle : ∃ grants replays,
    candidate.lifecycle = lifecycleRebind next.lifecycle grants replays
  shares : candidate.shares.consumed = next.shares.consumed
  sharesWithin : next.shares.consumed.length ≤ next.shares.capacity →
    candidate.shares.consumed.length ≤ candidate.shares.capacity
  blockCompensation : candidate.blockCompensation = next.blockCompensation
  compensation : candidate.compensation.entries = next.compensation.entries
  compensationWithin : next.compensation.entries.length ≤ next.compensation.capacity →
    candidate.compensation.entries.length ≤ candidate.compensation.capacity
  balances : candidate.economy.state.balances = next.economy.state.balances
  balancesWithin : next.economy.state.balances.length ≤ next.economy.state.capacity →
    candidate.economy.state.balances.length ≤ candidate.economy.state.capacity
  supply : candidate.economy.state.totalSupply = next.economy.state.totalSupply
  transfers : candidate.economy.replay.consumed = next.economy.replay.consumed
  transfersWithin : next.economy.replay.consumed.length ≤ next.economy.replay.capacity →
    candidate.economy.replay.consumed.length ≤ candidate.economy.replay.capacity
  contracts : candidate.contracts.state.entries.map ContractStateEntry.contractId =
    next.contracts.state.entries.map ContractStateEntry.contractId

omit [Primitives] in
/-- Inheritance sees the components of the prior only. -/
theorem ComponentsOf.of_eq {next prior candidate : ChainState}
    (h : ComponentsOf next candidate) (hlifecycle : next.lifecycle = prior.lifecycle)
    (hshares : next.shares = prior.shares)
    (hblock : next.blockCompensation = prior.blockCompensation)
    (hcompensation : next.compensation = prior.compensation)
    (heconomy : next.economy = prior.economy) (hcontracts : next.contracts = prior.contracts) :
    ComponentsOf prior candidate where
  lifecycle := hlifecycle ▸ h.lifecycle
  shares := hshares ▸ h.shares
  sharesWithin := hshares ▸ h.sharesWithin
  blockCompensation := hblock ▸ h.blockCompensation
  compensation := hcompensation ▸ h.compensation
  compensationWithin := hcompensation ▸ h.compensationWithin
  balances := heconomy ▸ h.balances
  balancesWithin := heconomy ▸ h.balancesWithin
  supply := heconomy ▸ h.supply
  transfers := heconomy ▸ h.transfers
  transfersWithin := heconomy ▸ h.transfersWithin
  contracts := hcontracts ▸ h.contracts

omit [Primitives] in
theorem lifecycle_eq_rebind (s : LifecycleState) :
    s = lifecycleRebind s s.grantCapacity s.replay.capacity := rfl

omit [Primitives] in
theorem candidateLifecycle_rebind (s : LifecycleState) (count : ℕ) (reconstruct : Bool) :
    ∃ grants replays, candidateLifecycle s count reconstruct =
      lifecycleRebind s grants replays := by
  simp only [candidateLifecycle]
  split
  · exact ⟨_, _, lifecycle_eq_rebind s⟩
  · exact ⟨_, _, rfl⟩

omit [Primitives] in
theorem cloneIf_eq_some {α : Type} {flag : Bool} {clone : α → Option α} {a a' : α}
    (h : cloneIf flag clone a = some a') : a' = a ∨ clone a = some a' := by
  simp only [cloneIf] at h
  split at h
  · exact .inr h
  · exact .inl (Option.some.inj h).symm

omit [Primitives] in
theorem shareClone_eq_some {s s' : ShareReplayState} (h : shareClone s = some s') :
    s' = { s with capacity := cloneCapacity s.consumed.length } := by
  simp only [shareClone] at h
  split at h
  · simp at h
  · exact (Option.some.inj h).symm

omit [Primitives] in
theorem blockCompensationClone_eq_some {s s' : BlockCompensationReplay}
    (h : blockCompensationClone s = some s') : s' = s := by
  simp only [blockCompensationClone, blockCompensationReplayCopy] at h
  split at h
  · simp [Except.toOption] at h
  split at h
  · simp [Except.toOption] at h
  · simpa [Except.toOption, eq_comm] using h

omit [Primitives] in
theorem compensationClone_eq_some {s s' : CompensationState}
    (h : compensationClone s = some s') :
    s' = { s with capacity := cloneCapacity s.entries.length } := by
  simp only [compensationClone] at h
  split at h
  · simp at h
  · exact (Option.some.inj h).symm

omit [Primitives] in
theorem economicClone_eq_some {s s' : ChainEconomy} (h : economicClone s = some s') :
    s' = {
      state := { s.state with capacity := cloneCapacity s.state.balances.length }
      replay := { s.replay with capacity := cloneCapacity s.replay.consumed.length } } := by
  simp only [economicClone] at h
  split at h
  · simp at h
  split at h
  · simp at h
  · exact (Option.some.inj h).symm

omit [Primitives] in
/-- Every component of a candidate is the prior's own or a clone of it. -/
theorem candidateComponents_eq_some {flags : CandidateFlags} {count : ℕ} {reconstruct : Bool}
    {next candidate : ChainState}
    (h : candidateComponents flags count reconstruct next = some candidate) :
    SameTip next candidate ∧ ComponentsOf next candidate := by
  simp only [candidateComponents, Option.bind_eq_bind, Option.bind_eq_some_iff] at h
  obtain ⟨shares, hshares, blockCompensation, hblock, compensation, hcompensation, economy,
    heconomy, contracts, hcontracts, h⟩ := h
  obtain rfl := Option.some.inj h
  have hlifecycle : ∃ grants replays,
      (if flags.lifecycle then candidateLifecycle next.lifecycle count reconstruct
        else next.lifecycle) = lifecycleRebind next.lifecycle grants replays := by
    split
    · exact candidateLifecycle_rebind _ _ _
    · exact ⟨_, _, lifecycle_eq_rebind _⟩
  have hblockEq : blockCompensation = next.blockCompensation := by
    rcases cloneIf_eq_some hblock with rfl | hclone
    · rfl
    · exact blockCompensationClone_eq_some hclone
  have hsharesEq : shares.consumed = next.shares.consumed ∧
      (next.shares.consumed.length ≤ next.shares.capacity →
        shares.consumed.length ≤ shares.capacity) := by
    rcases cloneIf_eq_some hshares with rfl | hclone
    · exact ⟨rfl, id⟩
    · rw [shareClone_eq_some hclone]
      exact ⟨rfl, fun _ => Nat.le_add_right _ _⟩
  have hcompensationEq : compensation.entries = next.compensation.entries ∧
      (next.compensation.entries.length ≤ next.compensation.capacity →
        compensation.entries.length ≤ compensation.capacity) := by
    rcases cloneIf_eq_some hcompensation with rfl | hclone
    · exact ⟨rfl, id⟩
    · rw [compensationClone_eq_some hclone]
      exact ⟨rfl, fun _ => Nat.le_add_right _ _⟩
  have heconomyEq : economy.state.balances = next.economy.state.balances ∧
      (next.economy.state.balances.length ≤ next.economy.state.capacity →
        economy.state.balances.length ≤ economy.state.capacity) ∧
      economy.state.totalSupply = next.economy.state.totalSupply ∧
      economy.replay.consumed = next.economy.replay.consumed ∧
      (next.economy.replay.consumed.length ≤ next.economy.replay.capacity →
        economy.replay.consumed.length ≤ economy.replay.capacity) := by
    rcases cloneIf_eq_some heconomy with rfl | hclone
    · exact ⟨rfl, id, rfl, rfl, id⟩
    · rw [economicClone_eq_some hclone]
      exact ⟨rfl, fun _ => Nat.le_add_right _ _, rfl, rfl, fun _ => Nat.le_add_right _ _⟩
  have hcontractsEq : contracts.state.entries.map ContractStateEntry.contractId =
      next.contracts.state.entries.map ContractStateEntry.contractId := by
    rcases cloneIf_eq_some hcontracts with rfl | hclone
    · rfl
    · exact contractSnapshotBind_eq_some hclone
  refine ⟨.components, ?_⟩
  exact {
    lifecycle := hlifecycle
    shares := hsharesEq.1
    sharesWithin := hsharesEq.2
    blockCompensation := hblockEq
    compensation := hcompensationEq.1
    compensationWithin := hcompensationEq.2
    balances := heconomyEq.1
    balancesWithin := heconomyEq.2.1
    supply := heconomyEq.2.2.1
    transfers := heconomyEq.2.2.2.1
    transfersWithin := heconomyEq.2.2.2.2
    contracts := hcontractsEq }

end StnChain
