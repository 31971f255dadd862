import StnChain.Chain.History

/-!
# The lifecycle along a history

Which transactions of a block reach the lifecycle component, and what holds of the
component in every accepted history.
-/

namespace StnChain

variable [Primitives]

/-! ## The lifecycle flag -/

/-- The scan of a body raises the lifecycle flag for every lifecycle transaction but a
publication below the activation height. -/
theorem scanBody_lifecycle {c : ChainContext} {prior : ChainState} {height : UInt64}
    {ts : List Bytes} {flags flags' : CandidateFlags}
    (h : scanBody c prior height ts flags = .ok flags') :
    (flags.lifecycle = true → flags'.lifecycle = true) ∧
      ∀ tx ∈ decodedTransactions ts, tx.type.isLifecycle = true →
        (tx.type = .publication → prior.publicationActivationHeight ≤ height) →
        flags'.lifecycle = true := by
  induction ts generalizing flags with
  | nil =>
      obtain rfl := Except.ok.inj h
      exact ⟨id, by simp⟩
  | cons t ts ih =>
      simp only [scanBody] at h
      split at h
      · simp at h
      next flags₁ hscan =>
      obtain ⟨hkeep, hrest⟩ := ih h
      simp only [scanTransaction] at hscan
      split at hscan
      · simp at hscan
      next tx hdecode =>
      have hhead : (flags.lifecycle = true → flags₁.lifecycle = true) ∧
          (tx.type.isLifecycle = true →
            (tx.type = .publication → prior.publicationActivationHeight ≤ height) →
            flags₁.lifecycle = true) := by
        split at hscan <;> rename_i htype
        case h_10 =>
          split at hscan
          · simp at hscan
          split at hscan
          · simp at hscan
          split at hscan <;> obtain rfl := Except.ok.inj hscan
          · simp
          · next habove => exact ⟨id, fun _ hactive => absurd (hactive htype) habove⟩
        all_goals
          obtain rfl := Except.ok.inj hscan
          simp [htype, TransactionType.isLifecycle]
      refine ⟨fun hflag => hkeep (hhead.1 hflag), fun tx' htx' => ?_⟩
      rw [decodedTransactions_cons hdecode] at htx'
      rcases List.mem_cons.mp htx' with rfl | htx'
      · exact fun htype hactive => hkeep (hhead.2 htype hactive)
      · exact hrest tx' htx'

/-- The loop over a body hands on every lifecycle transaction in it but a publication
below the activation height. -/
theorem CandidatePrepared.hasLifecycle {c : ChainContext} {prior : ChainState} {bytes : Bytes}
    {reconstruct : Bool} {b : Block} {flags : CandidateFlags} {candidate : ChainState}
    (h : CandidatePrepared c prior bytes reconstruct b flags candidate) {tx : Transaction}
    (htx : tx ∈ decodedTransactions b.transactions) (htype : tx.type.isLifecycle = true)
    (hactive : tx.type = .publication →
      prior.publicationActivationHeight ≤ b.header.height) : flags.lifecycle = true :=
  (scanBody_lifecycle h.scan).2 tx htx htype hactive

/-- A publication that the loop hands on has passed its check. -/
theorem applyLifecycle_checked {env : CandidateEnv} {tx : Transaction}
    {lifecycle lifecycle' : LifecycleState}
    (h : applyLifecycle env tx lifecycle = .ok lifecycle') (hsome : env.hasLifecycle = true)
    (htype : tx.type = .publication)
    (habove : env.prior.publicationActivationHeight ≤ env.header.height) :
    lifecycleCheckPublication lifecycle tx.record env.context.hashProvider = .ok := by
  have hbelow : ¬(tx.type = .publication ∧
      env.header.height < env.prior.publicationActivationHeight) :=
    fun hbelow => UInt64.not_lt.mpr habove hbelow.2
  simp only [applyLifecycle, hsome, Bool.not_true, Bool.false_eq_true, ↓reduceIte,
    if_neg hbelow, if_pos htype] at h
  obtain ⟨_, hcheck, -⟩ := bind_eq_ok_iff.mp h
  exact (Prod.mk.inj (lifecycleStatus_eq_ok.mp hcheck)).1

/-! ## Properties of the component -/

omit [Primitives] in
/-- A consumption appends the signer and the nonce of its statement, which were not there. -/
theorem lifecycleConsume_fresh {s s' : LifecycleState} {signer : Octets 32}
    {type : TransactionType} {statement : Bytes} {provider : HashProvider}
    (h : lifecycleConsume s signer type statement provider = (.ok, s')) :
    ∃ nonce, lifecycleReplayNonce type statement provider = .ok nonce ∧
      ⟨signer, nonce⟩ ∉ s.replay.consumed ∧
      s' = { s with replay := { s.replay with
        consumed := s.replay.consumed ++ [⟨signer, nonce⟩] } } := by
  simp only [lifecycleConsume] at h
  split at h
  · next result hnonce =>
      obtain rfl := (Prod.mk.inj h).1
      exact absurd hnonce lifecycleReplayNonce_ne_ok
  · next nonce hnonce =>
      obtain ⟨id, hid, hfresh, rfl⟩ := consumeReplayId_eq_ok h
      obtain rfl := replayIdFromSignerNonce_eq_some hid
      exact ⟨nonce, hnonce, hfresh, rfl⟩

/-- A property of the component that other storage does not affect and every accepted
transaction keeps. -/
structure LifecycleKept (c : ChainContext) (P : LifecycleState → Prop) : Prop where
  rebind {s : LifecycleState} (grants replays : ℕ) : P s → P (lifecycleRebind s grants replays)
  apply {s s' : LifecycleState} {tx : Transaction} :
    lifecycleApplyTransaction s tx c.genesisAuthorityRoots c.hashProvider = (.ok, s') →
      P s → P s'

/-- A round applies its lifecycle transaction or leaves the component as it is. -/
theorem applyTransaction_lifecycle {env : CandidateEnv} {tx : Transaction} {s s' : ChainState}
    (h : applyTransaction env tx s = .ok s') :
    s'.lifecycle = s.lifecycle ∨
      lifecycleApplyTransaction s.lifecycle tx env.context.genesisAuthorityRoots
        env.context.hashProvider = (.ok, s'.lifecycle) := by
  cases stepOf_of_applyTransaction h with
  | lifecycle _ happly =>
      rcases applyLifecycle_eq_ok happly with ⟨rfl, -⟩ | ⟨-, -, hnext⟩
      · exact .inl rfl
      · exact .inr hnext
  | issuance _ _ | transfer _ _ | destination _ _ | contract _ _ | share _ _ => exact .inl rfl

section Kept

variable {c : ChainContext} {P : LifecycleState → Prop} (hP : LifecycleKept c P)

include hP

theorem LifecycleKept.applied {env : CandidateEnv} (henv : env.context = c) {ts : List Bytes}
    {s s' : ChainState} (h : Applied env ts s s') (hs : P s.lifecycle) : P s'.lifecycle := by
  induction h with
  | nil => exact hs
  | single _ _ hstep _ ih =>
      apply ih
      rcases applyTransaction_lifecycle hstep with hsame | hnext
      · rw [hsame]
        exact hs
      · exact hP.apply (henv ▸ hnext) hs
  | pair _ _ hstep _ ih =>
      apply ih
      obtain ⟨_, _, _, _, _, _, _, _, _, _, _, _, _, _, rfl⟩ := applyPair_eq_ok hstep
      exact hs

theorem LifecycleKept.inherit {prior candidate : ChainState} (h : ComponentsOf prior candidate)
    (hs : P prior.lifecycle) : P candidate.lifecycle := by
  obtain ⟨grants, replays, hlifecycle⟩ := h.lifecycle
  rw [hlifecycle]
  exact hP.rebind grants replays hs

theorem LifecycleKept.reaches (hinit : P (lifecycleNew c)) {blocks : List Bytes}
    {s : ChainState} (h : Reaches c blocks s) : P s.lifecycle := by
  refine h.invariant (P := fun _ s => P s.lifecycle) ?_ ?_
  · intro s hs
    obtain ⟨-, activation, -, rfl⟩ := chainInitialize_eq_ok hs
    exact hinit
  · intro past s bytes b flags candidate s' _ hs hprepared happlied
    obtain ⟨-, -, -, -, -, -, hinherit⟩ := hprepared.next_state
    exact hP.applied rfl happlied (hP.inherit hinherit hs)

theorem LifecycleKept.reaches_from {past rest : List Bytes} {s t : ChainState}
    (hs : Reaches c past s) (ht : Reaches c (past ++ rest) t) (h : P s.lifecycle) :
    P t.lifecycle := by
  induction rest using List.reverseRecOn generalizing t with
  | nil =>
      rw [List.append_nil] at ht
      exact hs.unique ht ▸ h
  | append_singleton rest bytes ih =>
      rw [← List.append_assoc] at ht
      obtain ⟨u, hu, hstep⟩ := reaches_snoc_iff.mp ht
      obtain ⟨b, flags, candidate, hprepared, happlied⟩ := reconstructStep_eq_ok_iff.mp hstep
      obtain ⟨-, -, -, -, -, -, hinherit⟩ := hprepared.next_state
      exact hP.applied rfl happlied (hP.inherit hinherit (ih hu))

/-- A property a lifecycle transaction establishes holds after every block part with it. -/
theorem LifecycleKept.applied_of_mem {env : CandidateEnv} (henv : env.context = c)
    (hsome : env.hasLifecycle = true) {tx : Transaction}
    (htype : tx.type.isLifecycle = true) (hpublication : tx.type ≠ .publication)
    (hstep : ∀ s s', lifecycleApplyTransaction s tx c.genesisAuthorityRoots c.hashProvider =
      (.ok, s') → P s') {ts : List Bytes} (htx : tx ∈ decodedTransactions ts)
    {s s' : ChainState} (h : Applied env ts s s') : P s'.lifecycle := by
  obtain ⟨t, ht, hdecode⟩ := mem_decodedTransactions.mp htx
  obtain ⟨pre, post, rfl⟩ := List.append_of_mem ht
  have hevidence : tx.type ≠ .blockCompensationEvidence := by
    intro heq
    simp [heq, TransactionType.isLifecycle] at htype
  have hissuance : tx.issuance issuanceReasonBlock = none := by
    have hne : tx.type ≠ .issuance := by
      intro heq
      simp [heq, TransactionType.isLifecycle] at htype
    simp [Transaction.issuance, hne]
  obtain ⟨before, after, -, hround, hpost⟩ := h.round_at hdecode hevidence hissuance
  apply hP.applied henv hpost
  cases stepOf_of_applyTransaction hround with
  | lifecycle _ happly =>
      rcases applyLifecycle_eq_ok happly with ⟨-, hnone | ⟨hbelow, -⟩⟩ | ⟨-, -, hnext⟩
      · simp [hsome] at hnone
      · exact absurd hbelow hpublication
      · exact hstep _ _ (henv ▸ hnext)
  | issuance htype' _ | transfer htype' _ | destination htype' _ | contract htype' _
  | share htype' _ => simp [htype', TransactionType.isLifecycle] at htype

/-- A property a lifecycle transaction establishes holds in every history with it. -/
theorem LifecycleKept.reaches_of_mem {tx : Transaction} (htype : tx.type.isLifecycle = true)
    (hpublication : tx.type ≠ .publication)
    (hstep : ∀ s s', lifecycleApplyTransaction s tx c.genesisAuthorityRoots c.hashProvider =
      (.ok, s') → P s') {blocks : List Bytes} (htx : tx ∈ historyTransactions blocks)
    {s : ChainState} (h : Reaches c blocks s) : P s.lifecycle := by
  obtain ⟨bytes, hbytes, hin⟩ := List.mem_flatMap.mp htx
  obtain ⟨past, rest, rfl⟩ := List.append_of_mem hbytes
  obtain ⟨prior, s', hprior, hround, hnext⟩ := h.step_at
  obtain ⟨b, flags, candidate, hprepared, happlied⟩ := reconstructStep_eq_ok_iff.mp hround
  rw [blockTransactions_of_decode hprepared.decode] at hin
  have hflag := hprepared.hasLifecycle hin htype fun heq => absurd heq hpublication
  have hdone := hP.applied_of_mem rfl hflag htype hpublication hstep hin happlied
  have hsplit : past ++ bytes :: rest = (past ++ [bytes]) ++ rest := by simp
  exact hP.reaches_from hnext (hsplit ▸ h) hdone

end Kept

/-! ## The activation height -/

/-- The next state of a prepared candidate has its prior's activation height. -/
theorem CandidateWorked.activation {c : ChainContext} {prior : ChainState} {b : Block}
    {id : Octets 32} {next : ChainState} (h : CandidateWorked c prior b id next) :
    next.publicationActivationHeight = prior.publicationActivationHeight := by
  simp only [CandidateWorked] at h
  split at h
  · rw [h]
    rfl
  · obtain ⟨-, -, work, -, rfl⟩ := h
    rfl

/-- A reconstructed state has the activation height of its context. -/
theorem Reaches.activation {c : ChainContext} {blocks : List Bytes} {s : ChainState}
    (h : Reaches c blocks s) :
    chainPublicationActivation c = .ok s.publicationActivationHeight := by
  refine h.invariant (P := fun _ s =>
    chainPublicationActivation c = .ok s.publicationActivationHeight) ?_ ?_
  · intro s hs
    obtain ⟨-, activation, hactivation, rfl⟩ := chainInitialize_eq_ok hs
    exact hactivation
  · intro past s bytes b flags candidate s' _ hs hprepared happlied
    obtain ⟨id, next, -, -, hworked, htip, -⟩ := hprepared.next_state
    rw [(htip.trans happlied.sameTip).activation, hworked.activation]
    exact hs

end StnChain
