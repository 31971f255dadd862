import StnChain.Chain.Content
import StnChain.Chain.LifecycleRun
import StnChain.Chain.Rotations

/-!
# Rebuilding the lifecycle

A second walk over a history that applies every transaction to the lifecycle
component (`stn_lifecycle_rebuild` of `stn_lifecycle.c`).  It knows lifecycle
transactions only and no activation height; `lifecycleRebuild_agrees_iff` says on
which accepted histories it yields the lifecycle of the reconstructed state.
-/

namespace StnChain

section

variable [Primitives]

/-! ## The walk -/

/-- The transaction loop of `stn_lifecycle_apply_block`. -/
def lifecycleApplyTransactions (roots : List (Octets 32)) (provider : HashProvider) :
    LifecycleState → List Bytes → LifecycleResult × LifecycleState
  | s, [] => (.ok, s)
  | s, t :: rest =>
      match transactionDecode t with
      | .error _ => (.malformed, s)
      | .ok tx =>
          match lifecycleApplyTransaction s tx roots provider with
          | (.ok, s) => lifecycleApplyTransactions roots provider s rest
          | (result, s) => (result, s)

/-- `stn_lifecycle_apply_block`. -/
def lifecycleApplyBlock (s : LifecycleState) (bytes : Bytes) (roots : List (Octets 32))
    (provider : HashProvider) : LifecycleResult × LifecycleState :=
  match blockDecode bytes with
  | .error _ => (.malformed, s)
  | .ok b => lifecycleApplyTransactions roots provider s b.transactions

/-- The block loop of `stn_lifecycle_rebuild`. -/
def lifecycleApplyBlocks (roots : List (Octets 32)) (provider : HashProvider) :
    LifecycleState → List Bytes → LifecycleResult × LifecycleState
  | s, [] => (.ok, s)
  | s, bytes :: rest =>
      match lifecycleApplyBlock s bytes roots provider with
      | (.ok, s) => lifecycleApplyBlocks roots provider s rest
      | (result, s) => (result, s)

/-- What `stn_lifecycle_rebuild` starts from. -/
def lifecycleReset (s : LifecycleState) : LifecycleState :=
  { s with
    grants := []
    authority := ⟨[]⟩
    rotation := identityRotationInitialize s.initialIdentity
    replay := { s.replay with consumed := [] } }

/-- `stn_lifecycle_rebuild`. -/
def lifecycleRebuild (s : LifecycleState) (blocks : List Bytes) (roots : List (Octets 32))
    (provider : HashProvider) : LifecycleResult × LifecycleState :=
  lifecycleApplyBlocks roots provider (lifecycleReset s) blocks

/-! ## Transactions that count -/

/-- The validator applies a transaction of a block at a height to the lifecycle. -/
def Transaction.effective (activation height : UInt64) (tx : Transaction) : Bool :=
  tx.type.isLifecycle && !(tx.type = .publication && height < activation)

/-- Every transaction of some blocks is applied to the lifecycle. -/
def AllEffective (activation : UInt64) (blocks : List Bytes) : Prop :=
  ∀ bytes ∈ blocks, ∀ b, blockDecode bytes = .ok b →
    ∀ tx ∈ decodedTransactions b.transactions, tx.effective activation b.header.height = true

/-- A state set up for a context, with room for a lifecycle. -/
structure RebuildReady (c : ChainContext) (s expected : LifecycleState) : Prop where
  initial : s.initialIdentity = (lifecycleNew c).initialIdentity
  identities : s.initialIdentities = (lifecycleNew c).initialIdentities
  grants : expected.grants.length ≤ s.grantCapacity
  replays : expected.replay.consumed.length ≤ s.replay.capacity

/-- Rebuilding succeeds with a lifecycle, up to the storage it is kept in. -/
def RebuildAgrees (c : ChainContext) (s : LifecycleState) (blocks : List Bytes)
    (expected : LifecycleState) : Prop :=
  ∃ rebuilt, lifecycleRebuild s blocks c.genesisAuthorityRoots c.hashProvider = (.ok, rebuilt) ∧
    lifecycleRebind rebuilt 0 0 = lifecycleRebind expected 0 0

omit [Primitives] in
@[simp]
theorem lifecycleNew_consumed (c : ChainContext) : (lifecycleNew c).replay.consumed = [] := by
  simp only [lifecycleNew, lifecycleSetInitialIdentities]
  split <;> rfl

omit [Primitives] in
/-- A rebuild starts from the lifecycle of the empty state. -/
theorem lifecycleReset_of_ready {c : ChainContext} {s expected : LifecycleState}
    (h : RebuildReady c s expected) :
    lifecycleReset s = lifecycleRebind (lifecycleNew c) s.grantCapacity s.replay.capacity := by
  have hinitial := h.initial
  have hidentities := h.identities
  simp only [lifecycleNew, lifecycleSetInitialIdentities] at hinitial hidentities ⊢
  by_cases hids : c.genesisInitialIdentities.length > genesisInitialIdentityMax
  · rw [if_pos hids] at hinitial hidentities ⊢
    simp only [lifecycleReset, hinitial, hidentities]
    rfl
  · rw [if_neg hids] at hinitial hidentities ⊢
    simp only [lifecycleReset, hinitial, hidentities]
    rfl

/-! ## Runs of the walk -/

/-- A walk that succeeds met lifecycle transactions only, and each consumed one replay
identifier. -/
theorem lifecycleApplyTransactions_eq_ok {roots : List (Octets 32)} {provider : HashProvider}
    {s s' : LifecycleState} {ts : List Bytes}
    (h : lifecycleApplyTransactions roots provider s ts = (.ok, s')) :
    s'.replay.consumed.length = s.replay.consumed.length + (decodedTransactions ts).length := by
  induction ts generalizing s with
  | nil =>
      obtain rfl := (Prod.mk.inj h).2
      simp
  | cons t rest ih =>
      simp only [lifecycleApplyTransactions] at h
      split at h
      · simp at h
      next tx hdecode =>
      split at h
      · next s₁ hstep =>
          obtain ⟨id, hreplay⟩ := (lifecycleApplyTransaction_eq_ok hstep).replay
          rw [ih h, hreplay, decodedTransactions_cons hdecode]
          simp only [List.length_append, List.length_cons, List.length_nil]
          omega
      · next hne _ => exact absurd (Prod.mk.inj h).1 hne

theorem lifecycleApplyBlocks_snoc_iff {roots : List (Octets 32)} {provider : HashProvider}
    {s s' : LifecycleState} {past : List Bytes} {bytes : Bytes} :
    lifecycleApplyBlocks roots provider s (past ++ [bytes]) = (.ok, s') ↔
      ∃ t, lifecycleApplyBlocks roots provider s past = (.ok, t) ∧
        lifecycleApplyBlock t bytes roots provider = (.ok, s') := by
  induction past generalizing s with
  | nil =>
      simp only [List.nil_append, lifecycleApplyBlocks]
      split
      · next h => simp [h]
      · next hne h =>
          simp only [Prod.mk.injEq, true_and, exists_eq_left', h]
  | cons first rest ih =>
      simp only [List.cons_append, lifecycleApplyBlocks]
      split
      · exact ih
      · next hne h =>
          constructor
          · exact fun heq => absurd (Prod.mk.inj heq).1 hne
          · rintro ⟨t, heq, -⟩
            exact absurd (Prod.mk.inj heq).1 hne

theorem lifecycleApplyBlock_eq_ok_iff {roots : List (Octets 32)} {provider : HashProvider}
    {s s' : LifecycleState} {bytes : Bytes} {b : Block} (hdecode : blockDecode bytes = .ok b) :
    lifecycleApplyBlock s bytes roots provider = (.ok, s') ↔
      lifecycleApplyTransactions roots provider s b.transactions = (.ok, s') := by
  simp [lifecycleApplyBlock, hdecode]

/-- A walk over blocks that succeeds consumed an identifier for every transaction. -/
theorem lifecycleApplyBlocks_consumed {roots : List (Octets 32)} {provider : HashProvider}
    {s s' : LifecycleState} {blocks : List Bytes}
    (h : lifecycleApplyBlocks roots provider s blocks = (.ok, s')) :
    s'.replay.consumed.length =
      s.replay.consumed.length + (historyTransactions blocks).length := by
  induction blocks using List.reverseRecOn generalizing s' with
  | nil =>
      obtain rfl := (Prod.mk.inj h).2
      simp
  | append_singleton past bytes ih =>
      obtain ⟨t, hpast, hblock⟩ := lifecycleApplyBlocks_snoc_iff.mp h
      cases hdecode : blockDecode bytes with
      | error status => simp [lifecycleApplyBlock, hdecode] at hblock
      | ok b =>
          have hlast := lifecycleApplyTransactions_eq_ok
            ((lifecycleApplyBlock_eq_ok_iff hdecode).mp hblock)
          rw [hlast, ih hpast, historyTransactions_append, historyTransactions_singleton hdecode,
            List.length_append]
          omega

/-! ## The validator's lifecycle -/

/-- The identifiers and grants of a lifecycle only grow. -/
theorem preserved_lifecycle_le (m n : ℕ) :
    Preserved fun s => m ≤ s.lifecycle.grants.length ∧
      n ≤ s.lifecycle.replay.consumed.length where
  inherit hcomponents h := by
    obtain ⟨grants, replays, hlifecycle⟩ := hcomponents.lifecycle
    rw [hlifecycle]
    exact h
  single hstep h := by
    cases stepOf_of_applyTransaction hstep with
    | lifecycle _ hlifecycle =>
        rcases applyLifecycle_eq_ok hlifecycle with ⟨rfl, -⟩ | ⟨-, -, happly⟩
        · exact h
        · have hadvance := lifecycleApplyTransaction_eq_ok happly
          obtain ⟨id, hreplay⟩ := hadvance.replay
          simp only [hadvance.grants, hreplay, List.length_append]
          omega
    | _ => exact h
  pair hstep h := by
    obtain ⟨_, _, _, _, _, -, -, -, -, -, -, -, -, -, rfl⟩ := applyPair_eq_ok hstep
    exact h

/-- A round for a transaction that counts applies it to the lifecycle. -/
theorem applyTransaction_effective {env : CandidateEnv} {tx : Transaction} {s s' : ChainState}
    (h : applyTransaction env tx s = .ok s') (henv : env.hasLifecycle = true)
    (htx : tx.effective env.prior.publicationActivationHeight env.header.height = true) :
    lifecycleApplyTransaction s.lifecycle tx env.context.genesisAuthorityRoots
      env.context.hashProvider = (.ok, s'.lifecycle) := by
  obtain ⟨htype, hactive⟩ := Bool.and_eq_true_iff.mp htx
  cases stepOf_of_applyTransaction h with
  | lifecycle _ hlifecycle =>
      rcases applyLifecycle_eq_ok hlifecycle with ⟨-, hnone | hbelow⟩ | ⟨-, -, happly⟩
      · simp [henv] at hnone
      · simp [hbelow] at hactive
      · exact happly
  | issuance hother | transfer hother | destination hother | contract hother | share hother =>
      simp [hother, TransactionType.isLifecycle] at htype

/-- Where every transaction counts, the walk over a body does what the loop over it
does to the lifecycle, in any storage that has room for the result. -/
theorem Applied.rebuild {env : CandidateEnv} {ts : List Bytes} {s s' : ChainState}
    (h : Applied env ts s s') (henv : ts ≠ [] → env.hasLifecycle = true)
    (heffective : ∀ tx ∈ decodedTransactions ts,
      tx.effective env.prior.publicationActivationHeight env.header.height = true)
    (hroom : RoomFor env s ts.length ts.length) {grants replays : ℕ}
    (hgrants : s'.lifecycle.grants.length ≤ grants)
    (hreplays : s'.lifecycle.replay.consumed.length ≤ replays) :
    lifecycleApplyTransactions env.context.genesisAuthorityRoots env.context.hashProvider
        (lifecycleRebind s.lifecycle grants replays) ts =
      (.ok, lifecycleRebind s'.lifecycle grants replays) := by
  induction h with
  | nil => rfl
  | @single bytes tx rest s s₁ s' hdecode _ hstep hrest ih =>
      have hflag : env.hasLifecycle = true := henv (by simp)
      have htx : tx.effective env.prior.publicationActivationHeight env.header.height = true :=
        heffective tx (by simp [decodedTransactions_cons hdecode])
      have happly := applyTransaction_effective hstep hflag htx
      have hadvance := lifecycleApplyTransaction_eq_ok happly
      have hgranted := tx.length_granted_le
      obtain ⟨hgrown, hconsumed⟩ := hrest.preserves
        (preserved_lifecycle_le s₁.lifecycle.grants.length s₁.lifecycle.replay.consumed.length)
        ⟨le_rfl, le_rfl⟩
      have hnow : s.lifecycle.Room tx.granted.length 1 :=
        hroom.mono (by simp only [List.length_cons]; omega) (by simp) hflag
      have hnow' : (lifecycleRebind s.lifecycle grants replays).Room tx.granted.length 1 := by
        obtain ⟨id, hreplay⟩ := hadvance.replay
        simp only [hadvance.grants, hreplay, List.length_append, List.length_singleton]
          at hgrown hconsumed
        constructor
        · exact hgrown.trans hgrants
        · exact hconsumed.trans hreplays
      have hlater : RoomFor env s₁ rest.length rest.length :=
        applyTransaction_room hstep
          (hroom.mono (by simp only [List.length_cons]; omega) (by simp))
      have hwalk := lifecycleApplyTransaction_rebind hnow hnow' env.context.genesisAuthorityRoots
        env.context.hashProvider
      rw [happly] at hwalk
      simp only [lifecycleApplyTransactions, hdecode, hwalk]
      apply ih (fun _ => hflag) _ hlater hgrants hreplays
      intro tx' htx'
      apply heffective tx'
      rw [decodedTransactions_cons hdecode]
      exact List.mem_cons_of_mem _ htx'
  | @pair bytes next tx rest s s₁ s' hdecode htype _ _ _ =>
      have htx : tx.effective env.prior.publicationActivationHeight env.header.height = true :=
        heffective tx (by simp [decodedTransactions_cons hdecode])
      simp [Transaction.effective, htype, TransactionType.isLifecycle] at htx

theorem Applied.decoded_ne_nil {env : CandidateEnv} {ts : List Bytes} {s s' : ChainState}
    (h : Applied env ts s s') (hts : ts ≠ []) : decodedTransactions ts ≠ [] := by
  cases h with
  | nil => exact absurd rfl hts
  | single hdecode | pair hdecode =>
      rw [decodedTransactions_cons hdecode]
      exact List.cons_ne_nil _ _

/-- A body adds at most one identifier for each of its transactions, and that many only
when all of them count. -/
theorem Applied.consumed_le {env : CandidateEnv} {ts : List Bytes} {s s' : ChainState}
    (h : Applied env ts s s') :
    s'.lifecycle.replay.consumed.length ≤
        s.lifecycle.replay.consumed.length + (decodedTransactions ts).length ∧
      (s'.lifecycle.replay.consumed.length =
          s.lifecycle.replay.consumed.length + (decodedTransactions ts).length →
        ∀ tx ∈ decodedTransactions ts,
          tx.effective env.prior.publicationActivationHeight env.header.height = true) := by
  induction h with
  | nil => simp
  | @single bytes tx rest s s₁ s' hdecode _ hstep _ ih =>
      obtain ⟨hle, hall⟩ := ih
      have hround : s₁.lifecycle.replay.consumed.length =
            s.lifecycle.replay.consumed.length ∨
          s₁.lifecycle.replay.consumed.length =
              s.lifecycle.replay.consumed.length + 1 ∧
            tx.effective env.prior.publicationActivationHeight env.header.height = true := by
        cases stepOf_of_applyTransaction hstep with
        | lifecycle htype hlifecycle =>
            rcases applyLifecycle_eq_ok hlifecycle with ⟨rfl, -⟩ | ⟨-, habove, happly⟩
            · exact .inl rfl
            · obtain ⟨id, hreplay⟩ := (lifecycleApplyTransaction_eq_ok happly).replay
              refine .inr ⟨by simp [hreplay], ?_⟩
              simpa [Transaction.effective, htype, imp_iff_not_or] using habove
        | _ => exact .inl rfl
      rw [decodedTransactions_cons hdecode, List.length_cons]
      refine ⟨by omega, fun heq => ?_⟩
      rcases hround with hsame | ⟨hmore, htx⟩
      · omega
      · intro tx' htx'
        rcases List.mem_cons.mp htx' with rfl | htx'
        · exact htx
        · exact hall (by omega) tx' htx'
  | @pair bytes next tx rest s s₁ s' hdecode _ hstep _ ih =>
      obtain ⟨hle, -⟩ := ih
      obtain ⟨_, tx', _, _, _, -, -, hnext, -, -, -, -, -, -, rfl⟩ := applyPair_eq_ok hstep
      rw [decodedTransactions_cons hdecode, decodedTransactions_cons hnext, List.length_cons,
        List.length_cons]
      have hle : s'.lifecycle.replay.consumed.length ≤
          s.lifecycle.replay.consumed.length + (decodedTransactions rest).length := hle
      exact ⟨by omega, fun heq => by omega⟩

theorem allEffective_snoc_iff {activation : UInt64} {past : List Bytes}
    {bytes : Bytes} {b : Block} (hdecode : blockDecode bytes = .ok b) :
    AllEffective activation (past ++ [bytes]) ↔ AllEffective activation past ∧
      ∀ tx ∈ decodedTransactions b.transactions,
        tx.effective activation b.header.height = true := by
  simp only [AllEffective, List.forall_mem_append, List.forall_mem_singleton, hdecode,
    Except.ok.injEq, forall_eq']

/-- The walk over a history of transactions that count reaches the lifecycle of the state. -/
theorem Reaches.rebuild {c : ChainContext} {blocks : List Bytes} {s : ChainState}
    (h : Reaches c blocks s)
    (heffective : AllEffective s.publicationActivationHeight blocks) {grants replays : ℕ}
    (hgrants : s.lifecycle.grants.length ≤ grants)
    (hreplays : s.lifecycle.replay.consumed.length ≤ replays) :
    lifecycleApplyBlocks c.genesisAuthorityRoots c.hashProvider
        (lifecycleRebind (lifecycleNew c) grants replays) blocks =
      (.ok, lifecycleRebind s.lifecycle grants replays) := by
  revert heffective grants replays
  refine h.invariant (P := fun blocks s =>
    AllEffective s.publicationActivationHeight blocks → ∀ {grants replays : ℕ},
      s.lifecycle.grants.length ≤ grants → s.lifecycle.replay.consumed.length ≤ replays →
      lifecycleApplyBlocks c.genesisAuthorityRoots c.hashProvider
          (lifecycleRebind (lifecycleNew c) grants replays) blocks =
        (.ok, lifecycleRebind s.lifecycle grants replays)) ?_ ?_
  · intro s hs _ grants replays _ _
    obtain ⟨-, activation, -, rfl⟩ := chainInitialize_eq_ok hs
    rfl
  · intro past s bytes b flags candidate s' hs hP hprepared happlied heffective grants replays
      hgrants hreplays
    obtain ⟨hpast, hbody⟩ := (allEffective_snoc_iff hprepared.decode).mp heffective
    obtain ⟨id, next, -, -, hworked, htip, hinherit⟩ := hprepared.next_state
    have hactivation : s'.publicationActivationHeight = s.publicationActivationHeight := by
      rw [(htip.trans happlied.sameTip).activation, hworked.activation]
    rw [hactivation] at hpast hbody
    obtain ⟨m, n, hlifecycle⟩ := hinherit.lifecycle
    obtain ⟨hgrown, hconsumed⟩ := happlied.preserves (preserved_lifecycle_le
      candidate.lifecycle.grants.length candidate.lifecycle.replay.consumed.length)
      ⟨le_rfl, le_rfl⟩
    have hflag : b.transactions ≠ [] → flags.lifecycle = true := by
      intro hsome
      obtain ⟨tx, htx⟩ := List.exists_mem_of_ne_nil _ (happlied.decoded_ne_nil hsome)
      obtain ⟨htype, hactive⟩ := Bool.and_eq_true_iff.mp (hbody tx htx)
      exact hprepared.hasLifecycle htx htype (by simpa [imp_iff_not_or] using hactive)
    have hwalk := happlied.rebuild hflag hbody (hprepared.room (some past)) hgrants hreplays
    refine lifecycleApplyBlocks_snoc_iff.mpr ⟨_, hP hpast ?_ ?_, ?_⟩
    · rw [hlifecycle] at hgrown
      exact hgrown.trans hgrants
    · rw [hlifecycle] at hconsumed
      exact hconsumed.trans hreplays
    · rw [lifecycleApplyBlock_eq_ok_iff hprepared.decode]
      rw [hlifecycle] at hwalk
      exact hwalk

/-- A history adds at most one identifier for each of its transactions, and that many
only when all of them count. -/
theorem Reaches.consumed_le {c : ChainContext} {blocks : List Bytes} {s : ChainState}
    (h : Reaches c blocks s) :
    s.lifecycle.replay.consumed.length ≤ (historyTransactions blocks).length ∧
      (s.lifecycle.replay.consumed.length = (historyTransactions blocks).length →
        AllEffective s.publicationActivationHeight blocks) := by
  refine h.invariant (P := fun blocks s =>
    s.lifecycle.replay.consumed.length ≤ (historyTransactions blocks).length ∧
      (s.lifecycle.replay.consumed.length = (historyTransactions blocks).length →
        AllEffective s.publicationActivationHeight blocks)) ?_ ?_
  · intro s hs
    obtain ⟨-, activation, -, rfl⟩ := chainInitialize_eq_ok hs
    simp [AllEffective, emptyState]
  · intro past s bytes b flags candidate s' hs hP hprepared happlied
    obtain ⟨hle, hall⟩ := hP
    obtain ⟨id, next, -, -, hworked, htip, hinherit⟩ := hprepared.next_state
    obtain ⟨m, n, hlifecycle⟩ := hinherit.lifecycle
    obtain ⟨hround, hbody⟩ := happlied.consumed_le
    have hstart : candidate.lifecycle.replay.consumed = s.lifecycle.replay.consumed := by
      rw [hlifecycle]
      rfl
    rw [hstart] at hround hbody
    rw [historyTransactions_append, historyTransactions_singleton hprepared.decode,
      List.length_append, (htip.trans happlied.sameTip).activation, hworked.activation]
    refine ⟨by omega, fun heq => (allEffective_snoc_iff hprepared.decode).mpr ⟨?_, ?_⟩⟩
    · exact hall (by omega)
    · exact hbody (by omega)

/-! ## Where a rebuild agrees -/

/-- Over an accepted history a rebuild with room for the result yields the lifecycle of
the reconstructed state exactly when every transaction is a lifecycle transaction and
every publication is at or above the activation height. -/
theorem lifecycleRebuild_agrees_iff {c : ChainContext} {blocks : List Bytes} {s : ChainState}
    (h : Accepts c blocks s) {t : LifecycleState} (hready : RebuildReady c t s.lifecycle) :
    RebuildAgrees c t blocks s.lifecycle ↔
      AllEffective s.publicationActivationHeight blocks := by
  obtain ⟨-, hreach⟩ := accepts_iff.mp h
  simp only [RebuildAgrees, lifecycleRebuild, lifecycleReset_of_ready hready]
  constructor
  · rintro ⟨rebuilt, hwalk, hsame⟩
    apply hreach.consumed_le.2
    have hconsumed := lifecycleApplyBlocks_consumed hwalk
    have hlength : rebuilt.replay.consumed = s.lifecycle.replay.consumed :=
      congrArg (·.replay.consumed) hsame
    rw [← hlength, hconsumed]
    simp [lifecycleRebind]
  · intro heffective
    exact ⟨_, hreach.rebuild heffective hready.grants hready.replays, rfl⟩

end

section Sample

/-! ## Sample rebuilds -/

namespace Sample

/-- SHA-256 of what validating a block of rotations hashes, by residues modulo `2 ^ 61 - 1`. -/
def rebuildDigests : List (ℕ × ℕ) :=
  [(0x116a2227646192bf,
      0xdd9e5cd68d7dfdb7b36a74131100104309c9596704622a0a6e777d4ecc14d83e),
   (0x9aa3af481b3b58b,
      0x044b4a91e6724ddee5be954217e8b12047c982bb1276187d3b0f8fee427df4c9),
   (0x1c94a16e9b98b576,
      0xa5e068fdc6a3a6e4f02138eb12e2607ad8fabb044953b167f7ac024ab3ff1b46)]

/-- SHA-256 and Ed25519 as far as the rebuilds ask for them. -/
@[reducible] def rebuilding : Primitives where
  sha256 domain bytes := .ok (BitVec.ofNat 256 (((rebuildDigests ++ rotationDigests ++
    digests).lookup (BigEndian.read (domain ++ bytes) % (2 ^ 61 - 1))).getD 1))
  ed25519Verify := rotating.ed25519Verify

/-- A genesis block with two rotations. -/
def rotationsGenesis : Bytes :=
  block 0 0
    0xdd9e5cd68d7dfdb7b36a74131100104309c9596704622a0a6e777d4ecc14d83e 3
    [rotate first second firstSignature, rotate second third secondSignature]

/-- A context of rotations with a genesis block. -/
def rebuildContext (genesisBytes : Bytes) : ChainContext :=
  { context with
    genesisBytes
    genesisInitialIdentities := [first]
    hashProvider := ⟨some rebuilding.sha256⟩ }

/-- Lifecycle storage for a rebuild in a context. -/
def rebuildStorage (c : ChainContext) : LifecycleState := lifecycleRebind (lifecycleNew c) 4 4

/-- A lifecycle fits the storage. -/
def fits (s : ChainState) : Bool :=
  s.lifecycle.grants.length ≤ 4 && s.lifecycle.replay.consumed.length ≤ 4

theorem rebuildStorage_ready (c : ChainContext) {s : ChainState} (h : fits s = true) :
    RebuildReady c (rebuildStorage c) s.lifecycle := by
  obtain ⟨hgrants, hreplays⟩ := Bool.and_eq_true_iff.mp h
  exact ⟨rfl, rfl, of_decide_eq_true hgrants, of_decide_eq_true hreplays⟩

end Sample

attribute [local instance] Sample.rebuilding

open Sample

/-- A rebuild refuses a destination, and consumes an unchecked publication of the genesis
block that validation passes over. -/
theorem sample_rebuild_differs :
    (∃ s, Accepts context [genesis, empty, shares] s ∧
      RebuildReady context (rebuildStorage context) s.lifecycle ∧
      ¬RebuildAgrees context (rebuildStorage context) [genesis, empty, shares] s.lifecycle) ∧
    ∃ s, Accepts (rebuildContext rotatingGenesis) [rotatingGenesis] s ∧
      RebuildReady (rebuildContext rotatingGenesis)
        (rebuildStorage (rebuildContext rotatingGenesis)) s.lifecycle ∧
      ¬RebuildAgrees (rebuildContext rotatingGenesis)
        (rebuildStorage (rebuildContext rotatingGenesis)) [rotatingGenesis] s.lifecycle := by
  constructor
  · obtain ⟨s, hs, hfits⟩ := accepts_of_any context [genesis, empty, shares] fits
      (by decide +kernel)
    refine ⟨s, hs, rebuildStorage_ready context hfits, ?_⟩
    rintro ⟨rebuilt, hwalk, -⟩
    have hresult : (lifecycleRebuild (rebuildStorage context) [genesis, empty, shares]
        context.genesisAuthorityRoots context.hashProvider).1 = .malformed := by
      decide +kernel
    simp [hwalk] at hresult
  · obtain ⟨s, hs, hcheck⟩ := accepts_of_any (rebuildContext rotatingGenesis)
      [rotatingGenesis] (fun s => fits s && s.lifecycle.replay.consumed.length == 2)
      (by decide +kernel)
    obtain ⟨hfits, htwo⟩ := Bool.and_eq_true_iff.mp hcheck
    refine ⟨s, hs, rebuildStorage_ready _ hfits, ?_⟩
    rintro ⟨rebuilt, hwalk, hsame⟩
    have hthree : (lifecycleRebuild (rebuildStorage (rebuildContext rotatingGenesis))
        [rotatingGenesis] (rebuildContext rotatingGenesis).genesisAuthorityRoots
        (rebuildContext rotatingGenesis).hashProvider).2.replay.consumed.length = 3 := by
      decide +kernel
    have hconsumed : rebuilt.replay.consumed = s.lifecycle.replay.consumed :=
      congrArg (·.replay.consumed) hsame
    rw [hwalk, hconsumed] at hthree
    simp [hthree] at htwo

/-- A history of rotations rebuilds. -/
theorem sample_rebuild_agrees :
    ∃ s, Accepts (rebuildContext rotationsGenesis) [rotationsGenesis] s ∧
      RebuildReady (rebuildContext rotationsGenesis)
        (rebuildStorage (rebuildContext rotationsGenesis)) s.lifecycle ∧
      (RebuildAgrees (rebuildContext rotationsGenesis)
        (rebuildStorage (rebuildContext rotationsGenesis)) [rotationsGenesis] s.lifecycle ↔
      AllEffective s.publicationActivationHeight [rotationsGenesis]) := by
  obtain ⟨s, hs, hfits⟩ := accepts_of_any (rebuildContext rotationsGenesis)
    [rotationsGenesis] fits (by decide +kernel)
  have hready := rebuildStorage_ready (rebuildContext rotationsGenesis) hfits
  exact ⟨s, hs, hready, lifecycleRebuild_agrees_iff hs hready⟩

end Sample

end StnChain
