import StnChain.Chain.Content
import StnChain.Chain.Revocations
import StnChain.Chain.RewardRoom

/-!
# Room for a block

The working copies of a candidate are made before its transactions are applied: clones
with room for `STN_BLOCK_MAX_TRANSACTIONS` further entries, or the lifecycle snapshot
itself while it has room for the transactions of the block.  A transaction takes at most
one entry of each table, so along a run of the loop every table that the transactions left
may add to has room for as many entries (`Spare`), and none of them finds a copy full.
-/

namespace StnChain

section

variable [Primitives]

/-! ## The copies a transaction needs -/

/-- The flag that a transaction of a type sets; publications set the lifecycle flag from the
activation height on only. -/
def CandidateFlags.covers (flags : CandidateFlags) : TransactionType → Bool
  | .contractAction => flags.contracts
  | .shareEvidence => flags.shares
  | .blockCompensationEvidence => flags.blockCompensation
  | .compensationDestination => flags.compensation
  | .issuance => flags.issuance
  | .transfer => flags.transfer
  | .authorityGrant | .authorityRevoke | .identityRotate => flags.lifecycle
  | .publication => true

omit [Primitives] in
theorem CandidateFlags.economy_of_covers (flags : CandidateFlags) {type : TransactionType}
    (h : flags.covers type = true)
    (htype : type ∈ [.issuance, .transfer, .blockCompensationEvidence]) :
    flags.economy = true := by
  simp only [List.mem_cons, List.not_mem_nil, or_false] at htype
  simp only [CandidateFlags.economy, Bool.or_eq_true]
  rcases htype with rfl | rfl | rfl
  · exact .inl (.inl h)
  · exact .inl (.inr h)
  · exact .inr h

theorem scanTransaction_covers {c : ChainContext} {prior : ChainState} {height : UInt64}
    {t : Bytes} {flags flags' : CandidateFlags}
    (h : scanTransaction c prior height t flags = .ok flags') :
    (∀ type, flags.covers type = true → flags'.covers type = true) ∧
      ∀ tx, transactionDecode t = .ok tx → flags'.covers tx.type = true := by
  simp only [scanTransaction] at h
  split at h
  · simp at h
  next tx hdecode =>
  rw [hdecode]
  have hkeep (flags'' : CandidateFlags)
      (hraised : ∀ type, flags.covers type = true → flags''.covers type = true)
      (hset : flags''.covers tx.type = true) (hflags : flags'' = flags') :
      (∀ type, flags.covers type = true → flags'.covers type = true) ∧
        ∀ tx', Except.ok (ε := DataStatus) tx = .ok tx' → flags'.covers tx'.type = true := by
    subst hflags
    refine ⟨hraised, ?_⟩
    intro tx' htx'
    rw [← Except.ok.inj htx']
    exact hset
  split at h
  case h_10 htype =>
    have hpublication (flags'' : CandidateFlags) : flags''.covers tx.type = true := by
      rw [htype]
      rfl
    split at h
    · simp at h
    split at h
    · simp at h
    split at h
    · refine hkeep _ ?_ (hpublication _) (Except.ok.inj h)
      intro type
      cases type <;> simp [CandidateFlags.covers]
    · exact hkeep _ (fun _ => id) (hpublication _) (Except.ok.inj h)
  all_goals
    next htype =>
      refine hkeep _ ?_ (by rw [htype]; rfl) (Except.ok.inj h)
      intro type
      cases type <;> simp [CandidateFlags.covers]

/-- The flags of a body cover all of its transactions. -/
theorem scanBody_covers {c : ChainContext} {prior : ChainState} {height : UInt64}
    {ts : List Bytes} {flags flags' : CandidateFlags}
    (h : scanBody c prior height ts flags = .ok flags') :
    (∀ type, flags.covers type = true → flags'.covers type = true) ∧
      ∀ t ∈ ts, ∀ tx, transactionDecode t = .ok tx → flags'.covers tx.type = true := by
  induction ts generalizing flags with
  | nil =>
      obtain rfl := Except.ok.inj h
      exact ⟨fun _ => id, by simp⟩
  | cons t ts ih =>
      simp only [scanBody] at h
      split at h
      · simp at h
      next hscan =>
      obtain ⟨hkeep, hset⟩ := scanTransaction_covers hscan
      obtain ⟨hkeep', hset'⟩ := ih h
      refine ⟨fun type => hkeep' type ∘ hkeep type, ?_⟩
      intro t' ht' tx hdecode
      rcases List.mem_cons.mp ht' with rfl | ht'
      · exact hkeep' _ (hset tx hdecode)
      · exact hset' t' ht' tx hdecode

/-! ## Spare entries -/

/-- Every working copy has room for `n` further entries. -/
structure Spare (flags : CandidateFlags) (s : ChainState) (n : ℕ) : Prop where
  lifecycle : flags.lifecycle = true → s.lifecycle.Room n n
  shares : flags.shares = true → s.shares.consumed.length + n ≤ s.shares.capacity
  compensation : flags.compensation = true →
    s.compensation.entries.length + n ≤ s.compensation.capacity
  balances : flags.economy = true →
    s.economy.state.balances.length + n ≤ s.economy.state.capacity
  transfers : flags.economy = true →
    s.economy.replay.consumed.length + n ≤ s.economy.replay.capacity

/-- The copies of a candidate are made with room for the block. -/
theorem CandidatePrepared.spare {c : ChainContext} {prior : ChainState} {bytes : Bytes}
    {reconstruct : Bool} {b : Block} {flags : CandidateFlags} {candidate : ChainState}
    (h : CandidatePrepared c prior bytes reconstruct b flags candidate) :
    Spare flags candidate b.transactions.length := by
  have hcount : b.transactions.length ≤ blockMaxTransactions := by
    rw [Block.length_transactions]
    exact Block.count_le h.decode
  have hroom := h.room none
  obtain ⟨_, next, -, -, -, hcomponents⟩ := h.next
  simp only [candidateComponents, Option.bind_eq_bind, Option.bind_eq_some_iff] at hcomponents
  obtain ⟨shares, hshares, _, -, compensation, hcompensation, economy, heconomy, _, -,
    hcandidate⟩ := hcomponents
  obtain rfl := Option.some.inj hcandidate
  refine ⟨hroom, ?_, ?_, ?_, ?_⟩
  · intro hflag
    rw [hflag, cloneIf, if_pos rfl] at hshares
    rw [shareClone_eq_some hshares]
    exact Nat.add_le_add_left hcount _
  · intro hflag
    rw [hflag, cloneIf, if_pos rfl] at hcompensation
    rw [compensationClone_eq_some hcompensation]
    exact Nat.add_le_add_left hcount _
  · intro hflag
    rw [hflag, cloneIf, if_pos rfl] at heconomy
    rw [economicClone_eq_some heconomy]
    exact Nat.add_le_add_left hcount _
  · intro hflag
    rw [hflag, cloneIf, if_pos rfl] at heconomy
    rw [economicClone_eq_some heconomy]
    exact Nat.add_le_add_left hcount _

omit [Primitives] in
theorem Spare.mono {flags : CandidateFlags} {s : ChainState} {m n : ℕ} (h : Spare flags s n)
    (hle : m ≤ n) : Spare flags s m where
  lifecycle hflag := by
    obtain ⟨hgrants, hreplays⟩ := h.lifecycle hflag
    exact ⟨by omega, by omega⟩
  shares hflag := (Nat.add_le_add_left hle _).trans (h.shares hflag)
  compensation hflag := (Nat.add_le_add_left hle _).trans (h.compensation hflag)
  balances hflag := (Nat.add_le_add_left hle _).trans (h.balances hflag)
  transfers hflag := (Nat.add_le_add_left hle _).trans (h.transfers hflag)

/-! ## What a round takes -/

omit [Primitives] in
theorem compensationStateApply_length {s s' : CompensationState} {d : CompensationDestination}
    (h : compensationStateApply s d = .ok s') :
    s'.capacity = s.capacity ∧ s'.entries.length ≤ s.entries.length + 1 := by
  rcases compensationStateApply_cases h with ⟨hsame, -⟩ | ⟨-, -, hinsert⟩
  · rw [hsame]
    exact ⟨rfl, Nat.le_succ _⟩
  · rw [hinsert]
    exact ⟨rfl, (SortedTable.length_insert _).le⟩

/-- A round takes at most one entry of each copy. -/
theorem Spare.single {env : CandidateEnv} {flags : CandidateFlags} {tx : Transaction}
    {s s' : ChainState} {n : ℕ} (h : Spare flags s (n + 1))
    (hstep : applyTransaction env tx s = .ok s') : Spare flags s' n := by
  have hless := h.mono (Nat.le_succ n)
  cases stepOf_of_applyTransaction hstep with
  | issuance _ happly =>
      obtain ⟨_, _, _, _, _, _, _, _, _, heconomy⟩ := applyIssuance_eq_ok happly
      obtain ⟨hcapacity, hlength⟩ := economicStateApply_length heconomy
      refine { hless with balances := ?_ }
      intro hflag
      have hroom := h.balances hflag
      dsimp only
      omega
  | transfer _ happly =>
      obtain ⟨_, _, haccept⟩ := applyTransfer_eq_ok happly
      obtain ⟨_, htransfer, hconsume⟩ := transferEnvelopeAccept_eq_ok haccept
      obtain ⟨hcapacity, hlength⟩ := economicStateApplyTransfer_length htransfer
      obtain ⟨-, -, hreplay⟩ := transferEnvelopeReplayConsume_fresh hconsume
      refine { hless with balances := ?_, transfers := ?_ }
      · intro hflag
        have hroom := h.balances hflag
        dsimp only
        omega
      · intro hflag
        have hroom := h.transfers hflag
        dsimp only
        rw [hreplay]
        simp only [List.length_append, List.length_singleton]
        omega
  | @destination compensation _ happly =>
      have happlied : ∃ d, compensationStateApply s.compensation d = .ok compensation := by
        simp only [applyDestination] at happly
        split at happly
        · simp at happly
        · exact ⟨_, happly⟩
      obtain ⟨d, hd⟩ := happlied
      obtain ⟨hcapacity, hlength⟩ := compensationStateApply_length hd
      refine { hless with compensation := ?_ }
      intro hflag
      have hroom := h.compensation hflag
      dsimp only
      omega
  | contract _ _ => exact { hless with }
  | share _ happly =>
      obtain ⟨_, _, _, _, _, _, hconsume⟩ := applyShare_eq_ok happly
      obtain ⟨-, -, hreplay⟩ := shareReplayConsume_fresh hconsume
      refine { hless with shares := ?_ }
      intro hflag
      have hroom := h.shares hflag
      dsimp only
      rw [hreplay]
      simp only [List.length_append, List.length_singleton]
      omega
  | lifecycle _ happly =>
      refine { hless with lifecycle := ?_ }
      intro hflag
      have hroom := h.lifecycle hflag
      rcases applyLifecycle_eq_ok happly with ⟨hsame, -⟩ | ⟨-, -, hadvance⟩
      · dsimp only
        rw [hsame]
        exact hless.lifecycle hflag
      · refine (lifecycleApplyTransaction_eq_ok hadvance).room ⟨?_, hroom.replays⟩
        have hone := tx.length_granted_le
        have hgrants := hroom.grants
        omega

theorem Spare.pair {env : CandidateEnv} {flags : CandidateFlags} {tx : Transaction}
    {next : Bytes} {s s' : ChainState} {n : ℕ} (h : Spare flags s (n + 1))
    (hstep : applyPair env tx next s = .ok s') : Spare flags s' n := by
  obtain ⟨_, _, _, _, _, _, _, _, _, _, _, _, _, heconomy, rfl⟩ := applyPair_eq_ok hstep
  obtain ⟨hcapacity, hlength⟩ := economicStateApply_length heconomy
  refine { h.mono (Nat.le_succ n) with balances := ?_ }
  intro hflag
  have hroom := h.balances hflag
  dsimp only
  omega

/-- Along a run of the loop there stays room for the transactions that are left. -/
theorem Spare.applied {env : CandidateEnv} {flags : CandidateFlags} {past : List Bytes}
    {s s' : ChainState} {n : ℕ} (hrun : Applied env past s s')
    (h : Spare flags s (past.length + n)) :
    Spare flags s' n := by
  induction hrun with
  | nil => exact h.mono (Nat.le_add_left _ _)
  | single _ _ hstep _ ih =>
      apply ih
      apply Spare.single _ hstep
      rw [List.length_cons] at h
      exact h.mono (by omega)
  | pair _ _ hstep _ ih =>
      apply ih
      apply Spare.pair _ hstep
      rw [List.length_cons, List.length_cons] at h
      exact h.mono (by omega)

/-! ## No copy is found full -/

/-- The copies a round may add to have a free entry, and no operation of the round finds one
of them full.  What lifecycle transactions report as a capacity is then the bound on
revocations or rotations. -/
structure Fits (env : CandidateEnv) (s : ChainState) (tx : Transaction) : Prop where
  balances : tx.type ∈ [.issuance, .transfer, .blockCompensationEvidence] →
    s.economy.state.balances.length < s.economy.state.capacity
  issuance : tx.type ∈ [.issuance, .blockCompensationEvidence] →
    ∀ record, economicStateApply s.economy.state record ≠ .error .capacity
  transfer : tx.type = .transfer →
    ∀ t, economicStateApplyTransfer s.economy.state t ≠ .error .capacity
  transfers : tx.type = .transfer →
    s.economy.replay.consumed.length < s.economy.replay.capacity ∧
      ∀ e, (transferEnvelopeReplayConsume s.economy.replay e).1 ≠ .capacity
  shares : tx.type = .shareEvidence →
    s.shares.consumed.length < s.shares.capacity ∧
      ∀ share, (shareReplayConsume s.shares share).1 ≠ .capacity
  compensation : tx.type = .compensationDestination →
    s.compensation.entries.length < s.compensation.capacity ∧
      ∀ d, compensationStateApply s.compensation d ≠ .error .capacity
  copied : tx.type ∈ [.authorityGrant, .authorityRevoke, .identityRotate] →
    env.hasLifecycle = true
  grants : env.hasLifecycle = true → s.lifecycle.grants.length < s.lifecycle.grantCapacity
  replays : env.hasLifecycle = true →
    s.lifecycle.replay.consumed.length < s.lifecycle.replay.capacity ∧
      ∀ signer nonce, (consumeReplayId s.lifecycle signer nonce).1 ≠ .capacity
  lifecycle : env.hasLifecycle = true → ∀ roots provider,
    (lifecycleApplyTransaction s.lifecycle tx roots provider).1 = .capacity →
      (tx.type = .authorityRevoke ∧
        s.lifecycle.authority.revokedIds.length ≥ authorityMaxRevoked) ∨
      (tx.type = .identityRotate ∧
        s.lifecycle.rotation.rotations.length ≥ authorityMaxRotations)

omit [Primitives] in
theorem economicStateApply_ne_capacity {s : EconomicState}
    (h : s.balances.length < s.capacity) (r : IssuanceRecord) :
    economicStateApply s r ≠ .error .capacity := by
  intro hfull
  simp only [economicStateApply, issuanceRecordValid, if_neg (Nat.ne_of_lt h)] at hfull
  split at hfull
  · next hvalid =>
      split at hvalid
      · rw [← Except.error.inj hvalid] at hfull
        simp at hfull
      · split at hvalid
        · simp at hvalid
        · rw [← Except.error.inj hvalid] at hfull
          simp at hfull
  · split at hfull
    · simp at hfull
    split at hfull
    · simp at hfull
    split at hfull
    · simp at hfull
    · split at hfull
      · split at hfull <;> simp at hfull
      · simp at hfull

omit [Primitives] in
theorem economicStateApplyTransfer_ne_capacity {s : EconomicState}
    (h : s.balances.length < s.capacity) (t : Transfer) :
    economicStateApplyTransfer s t ≠ .error .capacity := by
  intro hfull
  simp only [economicStateApplyTransfer, if_neg (Nat.ne_of_lt h)] at hfull
  split at hfull
  · simp at hfull
  split at hfull
  · simp at hfull
  split at hfull
  · simp at hfull
  split at hfull
  · simp at hfull
  split at hfull
  · simp at hfull
  split at hfull
  · split at hfull <;> simp at hfull
  · simp at hfull

omit [Primitives] in
theorem compensationStateApply_ne_capacity {s : CompensationState}
    (h : s.entries.length < s.capacity) (d : CompensationDestination) :
    compensationStateApply s d ≠ .error .capacity := by
  intro hfull
  simp only [compensationStateApply, if_neg (Nat.ne_of_lt h)] at hfull
  split at hfull
  · simp at hfull
  split at hfull
  · simp at hfull
  split at hfull
  · simp at hfull
  · split at hfull
    · split at hfull <;> simp at hfull
    · simp at hfull

omit [Primitives] in
theorem shareReplayConsume_ne_capacity {s : ShareReplayState}
    (h : s.consumed.length < s.capacity) (share : ShareEvidence) :
    (shareReplayConsume s share).1 ≠ .capacity := by
  have hcheck : shareReplayCheck s share ≠ .capacity := by
    simp only [shareReplayCheck]
    split
    · simp
    split
    · simp
    · split <;> simp
  simp only [shareReplayConsume, if_neg (Nat.ne_of_lt h)]
  split
  · simp
  split
  · simp
  split
  · simp
  · exact hcheck

omit [Primitives] in
theorem transferEnvelopeReplayConsume_ne_capacity {s : TransferEnvelopeReplayState}
    (h : s.consumed.length < s.capacity) (e : TransferEnvelope) :
    (transferEnvelopeReplayConsume s e).1 ≠ .capacity := by
  have hcheck : transferEnvelopeReplayCheck s e ≠ .capacity := by
    simp only [transferEnvelopeReplayCheck]
    split
    · simp
    split
    · simp
    · split <;> simp
  simp only [transferEnvelopeReplayConsume, if_neg (Nat.ne_of_lt h)]
  split
  · simp
  split
  · simp
  split
  · simp
  · exact hcheck

section Lifecycle

variable {s : LifecycleState} (hreplays : s.replay.consumed.length < s.replay.capacity)
include hreplays

omit [Primitives] in
theorem consumeReplayId_ne_capacity (signer nonce : Octets 32) :
    (consumeReplayId s signer nonce).1 ≠ .capacity := by
  simp only [consumeReplayId]
  split
  · simp
  next id _ =>
  split
  · simp
  next hcheck =>
  have hfresh : replayStateCheck s.replay id = .fresh := by
    simp only [replayStateCheck, if_neg hreplays.not_gt] at hcheck ⊢
    split
    · next hmem => simp [hmem] at hcheck
    · rfl
  simp [replayStateConsume, if_neg hreplays.not_gt, hfresh, Nat.ne_of_lt hreplays]

omit [Primitives] in
theorem lifecycleConsume_ne_capacity (signer : Octets 32) (type : TransactionType)
    (statement : Bytes) (provider : HashProvider) :
    (lifecycleConsume s signer type statement provider).1 ≠ .capacity := by
  have hnonce : lifecycleReplayNonce type statement provider ≠ .error .capacity := by
    simp only [lifecycleReplayNonce]
    split
    · simp
    split
    · simp
    split
    · simp
    · split <;> simp
  simp only [lifecycleConsume]
  split
  · next result hresult =>
      intro hcapacity
      apply hnonce
      rw [hresult]
      exact congrArg Except.error hcapacity
  · exact consumeReplayId_ne_capacity hreplays _ _

/-- What a lifecycle transaction reports as a capacity is a bound of the authority. -/
theorem lifecycleApplyTransaction_capacity (hgrants : s.grants.length < s.grantCapacity)
    {tx : Transaction} {roots : List (Octets 32)} {provider : HashProvider}
    (h : (lifecycleApplyTransaction s tx roots provider).1 = .capacity) :
    (tx.type = .authorityRevoke ∧ s.authority.revokedIds.length ≥ authorityMaxRevoked) ∨
      (tx.type = .identityRotate ∧ s.rotation.rotations.length ≥ authorityMaxRotations) := by
  have hmapped : ∀ r, mapStatementResult r ≠ .capacity := by
    intro r
    cases r <;> simp [mapStatementResult]
  have hconsumed : ∀ t : LifecycleState, t.replay = s.replay → ∀ signer type statement,
      (lifecycleConsume t signer type statement provider).1 ≠ .capacity := by
    intro t ht signer type statement
    exact lifecycleConsume_ne_capacity (by rw [ht]; exact hreplays) signer type statement provider
  simp only [lifecycleApplyTransaction] at h
  split at h
  · simp only [applyGrant, if_neg hgrants.not_ge] at h
    split at h
    · simp at h
    split at h
    · simp at h
    split at h
    · simp at h
    next hresult =>
    exact (hconsumed s rfl _ _ _ (by rw [hresult]; exact h)).elim
  · next htype =>
      refine .inl ⟨htype, ?_⟩
      by_contra hbound
      simp only [applyRevoke, if_neg hbound] at h
      split at h
      · simp at h
      split at h
      · simp at h
      split at h
      · simp at h
      split at h
      · simp at h
      split at h
      · exact hmapped _ h
      next hresult =>
      exact hconsumed s rfl _ _ _ (by rw [hresult]; exact h)
  · next htype =>
      refine .inr ⟨htype, ?_⟩
      by_contra hbound
      have hseeded : (seedRotation s (octetsAt tx.record 1 32)).rotation.rotations =
          s.rotation.rotations := by
        simp only [seedRotation]
        split <;> rfl
      simp only [applyRotate, hseeded, if_neg hbound] at h
      split at h
      · simp at h
      split at h
      · simp at h
      split at h
      · simp at h
      split at h
      · simp at h
      split at h
      · exact hmapped _ h
      next hresult =>
      have hreplay : (seedRotation s (octetsAt tx.record 1 32)).replay = s.replay := by
        simp only [seedRotation]
        split <;> rfl
      exact hconsumed _ hreplay _ _ _ (by rw [hresult]; exact h)
  · split at h
    · simp at h
    · exact absurd h (consumeReplayId_ne_capacity hreplays _ _)
  · simp at h

end Lifecycle

/-- In every round that validation reaches, the copies that the round may add to have room
and none of them is found full. -/
theorem candidate_fits {c : ChainContext} {prior candidate mid : ChainState} {bytes : Bytes}
    {reconstruct : Bool} {r : ChainReport} {b : Block} {flags : CandidateFlags}
    (hprepared : prepareCandidate c prior bytes reconstruct = .ok (r, b, flags, candidate))
    (history : Option (List Bytes)) {past rest : List Bytes} {t : Bytes} {tx : Transaction}
    (hsplit : b.transactions = past ++ t :: rest)
    (hrun : applyTransactions (candidateEnv c prior history b flags) past candidate = .ok mid)
    (hdecode : transactionDecode t = .ok tx) :
    Fits (candidateEnv c prior history b flags) mid tx := by
  obtain ⟨hcandidate, -⟩ := prepareCandidate_iff.mp hprepared
  have hset : flags.covers tx.type = true :=
    (scanBody_covers hcandidate.scan).2 t (by simp [hsplit]) tx hdecode
  have hspare : Spare flags mid 1 := by
    apply Spare.applied (applyTransactions_eq_ok_iff.mp hrun)
    apply hcandidate.spare.mono
    rw [hsplit, List.length_append, List.length_cons]
    exact Nat.add_le_add_left (Nat.le_add_left 1 _) _
  have heconomy := flags.economy_of_covers hset
  have hbalances (htype : tx.type ∈ [.issuance, .transfer, .blockCompensationEvidence]) :=
    hspare.balances (heconomy htype)
  constructor
  case balances => exact hbalances
  case issuance =>
    intro htype
    exact economicStateApply_ne_capacity (hbalances (by revert htype; simp; tauto))
  case transfer =>
    intro htype
    exact economicStateApplyTransfer_ne_capacity (hbalances (by simp [htype]))
  case transfers =>
    intro htype
    have hroom := hspare.transfers (heconomy (by simp [htype]))
    exact ⟨hroom, transferEnvelopeReplayConsume_ne_capacity hroom⟩
  case shares =>
    intro htype
    rw [htype] at hset
    have hroom := hspare.shares hset
    exact ⟨hroom, shareReplayConsume_ne_capacity hroom⟩
  case compensation =>
    intro htype
    rw [htype] at hset
    have hroom := hspare.compensation hset
    exact ⟨hroom, compensationStateApply_ne_capacity hroom⟩
  case copied =>
    intro htype
    simp only [List.mem_cons, List.not_mem_nil, or_false] at htype
    rcases htype with htype | htype | htype <;> rw [htype] at hset <;> exact hset
  case grants =>
    intro hlifecycle
    exact (hspare.lifecycle hlifecycle).grants
  case replays =>
    intro hlifecycle
    have hroom := (hspare.lifecycle hlifecycle).replays
    exact ⟨hroom, consumeReplayId_ne_capacity hroom⟩
  case lifecycle =>
    intro hlifecycle roots provider
    have hroom := hspare.lifecycle hlifecycle
    exact lifecycleApplyTransaction_capacity hroom.replays hroom.grants

end

section Sample

attribute [local instance] Sample.granting

open Sample

theorem sample_revocation_fits : ∃ prior r b flags candidate mid,
    prepareCandidate grantingContext prior revoking true = .ok (r, b, flags, candidate) ∧
      applyTransactions (candidateEnv grantingContext prior (some [grantingGenesis]) b flags)
        [published 6 sixthSignature, published 8 eighthSignature] candidate = .ok mid ∧
      Fits (candidateEnv grantingContext prior (some [grantingGenesis]) b flags) mid
        ⟨1, .authorityRevoke, revocationRecord⟩ := by
  obtain ⟨s, hs⟩ := accepts_revoking
  have hall : Reaches grantingContext ([grantingGenesis] ++ revoking :: [afterwards]) s :=
    (accepts_iff.mp hs).2
  obtain ⟨prior, s', -, hstep, -⟩ := hall.step_at
  obtain ⟨b, flags, candidate, hprepared, happlied⟩ := reconstructStep_eq_ok_iff.mp hstep
  have htx : transactionDecode (transaction .authorityRevoke revocationRecord) =
      .ok ⟨1, .authorityRevoke, revocationRecord⟩ := by
    decide +kernel
  have hsplit : b.transactions = [published 6 sixthSignature, published 8 eighthSignature] ++
      [transaction .authorityRevoke revocationRecord] := by
    have hbody : (blockDecode revoking).toOption.map Block.transactions =
        some ([published 6 sixthSignature, published 8 eighthSignature] ++
          [transaction .authorityRevoke revocationRecord]) := by
      decide +kernel
    rw [hprepared.decode] at hbody
    exact Option.some.inj hbody
  rw [hsplit] at happlied
  obtain ⟨mid, -, hrun, -, -⟩ := happlied.round_at htx (by simp) (by rfl)
  have hready := prepareCandidate_iff.mpr ⟨hprepared, rfl⟩
  have hrounds := applyTransactions_eq_ok_iff.mpr hrun
  exact ⟨prior, _, b, flags, candidate, mid, hready, hrounds,
    candidate_fits hready _ hsplit hrounds htx⟩

end Sample

end StnChain
