import StnChain.Chain.LifecycleRun

/-!
# Rotated identities

An accepted rotation takes its old identity out of use: the lifecycle keeps every
rotation and its replay identifier, and refuses publications and rotations of an
identity it has rotated.  No contract action is accepted from any identity.
-/

namespace StnChain

section

variable [Primitives]

/-! ## Rotations of the lifecycle component -/

/-- Every accepted rotation has its replay identifier among the consumed ones. -/
def LifecycleState.RotationsReplayed (s : LifecycleState) (provider : HashProvider) : Prop :=
  ∀ r ∈ s.rotation.rotations, ∃ statement nonce,
    identityRotationStatement r.oldIdentity r.newIdentity = some statement ∧
      lifecycleReplayNonce .identityRotate statement provider = .ok nonce ∧
      ⟨r.oldIdentity, nonce⟩ ∈ s.replay.consumed

omit [Primitives] in
theorem rotationScan_eq_none {oldId newId : Octets 32} {rotations : List IdentityRotation}
    (h : rotationScan oldId newId rotations = none) : ∀ r ∈ rotations, r.oldIdentity ≠ oldId := by
  induction rotations with
  | nil => simp
  | cons r rest ih =>
      simp only [rotationScan] at h
      split at h
      · simp at h
      next hne =>
      split at h
      · simp at h
      · exact List.forall_mem_cons.mpr ⟨hne, ih h⟩

omit [Primitives] in
theorem rotationScan_eq_valid {oldId newId : Octets 32} {rotations : List IdentityRotation}
    (h : rotationScan oldId newId rotations = some .valid) : ⟨oldId, newId⟩ ∈ rotations := by
  induction rotations with
  | nil => simp [rotationScan] at h
  | cons r rest ih =>
      simp only [rotationScan] at h
      split at h
      · next hold =>
          split at h
          · next hnew =>
              obtain rfl := hold
              obtain rfl := hnew
              exact List.mem_cons_self
          · simp at h
      split at h
      · simp at h
      · exact List.mem_cons_of_mem _ (ih h)

/-- A valid rotation repeats an accepted one, or rotates the current identity, which
was not rotated before, to another one. -/
theorem identityRotationValidate_eq_valid {rotation : Bytes} {state : IdentityRotationState}
    {roots : List (Octets 32)} (h : identityRotationValidate rotation state roots = .valid) :
    ⟨octetsAt rotation 1 32, octetsAt rotation 33 32⟩ ∈ state.rotations ∨
      ((∀ r ∈ state.rotations, r.oldIdentity ≠ octetsAt rotation 1 32) ∧
        state.currentIdentity ≠ octetsAt rotation 33 32) := by
  simp only [identityRotationValidate] at h
  split at h
  · simp at h
  split at h
  · next oldId newId hold hnew =>
      obtain rfl := identityDerive_eq_some hold
      obtain rfl := identityDerive_eq_some hnew
      split at h
      · simp at h
      next hdistinct =>
      split at h
      · next result hscan =>
          subst h
          exact .inl (rotationScan_eq_valid hscan)
      · next hscan =>
          split at h
          · simp at h
          next hcurrent =>
          refine .inr ⟨rotationScan_eq_none hscan, ?_⟩
          rw [← not_not.mp hcurrent]
          exact fun heq => hdistinct (.inl heq)
  · simp at h

/-- What an accepted rotation does: it consumes its replay identifier, and it keeps
the accepted rotations and its own, which it repeats or appends. -/
theorem applyRotate_cases {s s' : LifecycleState} {record : Bytes} {roots : List (Octets 32)}
    {provider : HashProvider} (h : applyRotate s record roots provider = (.ok, s')) :
    ∃ statement nonce,
      identityRotationStatement (octetsAt record 1 32) (octetsAt record 33 32) =
        some statement ∧
      lifecycleReplayNonce .identityRotate statement provider = .ok nonce ∧
      ⟨octetsAt record 1 32, nonce⟩ ∉ s.replay.consumed ∧
      s'.replay.consumed = s.replay.consumed ++ [⟨octetsAt record 1 32, nonce⟩] ∧
      (⟨octetsAt record 1 32, octetsAt record 33 32⟩ ∈ s.rotation.rotations ∨
        ∀ r ∈ s.rotation.rotations, r.oldIdentity ≠ octetsAt record 1 32) ∧
      s.rotation.rotations <+: s'.rotation.rotations ∧
      ∀ r, r ∈ s'.rotation.rotations ↔ r ∈ s.rotation.rotations ∨
        r = ⟨octetsAt record 1 32, octetsAt record 33 32⟩ := by
  have hseed : (seedRotation s (octetsAt record 1 32)).rotation.rotations = s.rotation.rotations ∧
      (seedRotation s (octetsAt record 1 32)).replay = s.replay := by
    simp only [seedRotation]
    split <;> exact ⟨rfl, rfl⟩
  obtain ⟨hrotations, hreplay⟩ := hseed
  simp only [applyRotate] at h
  generalize seedRotation s (octetsAt record 1 32) = seeded at h hrotations hreplay
  split at h
  · simp at h
  split at h
  · simp at h
  split at h
  · simp at h
  next hvalid =>
  have hvalid := not_not.mp hvalid
  split at h
  · simp at h
  next hcapacity =>
  have hfull : seeded.rotation.rotations.length ≠ authorityMaxRotations := by omega
  split at h
  · simp at h
  next statement hstatement =>
  split at h
  · next s₁ hconsume =>
      obtain ⟨nonce, hnonce, hfresh, rfl⟩ := lifecycleConsume_fresh hconsume
      have hknown := identityRotationValidate_eq_valid hvalid
      simp only [identityRotationApply, hvalid, if_neg hfull] at h
      rw [hrotations] at hknown
      split at h
      · next hcurrent =>
          obtain ⟨-, rfl⟩ := Prod.mk.inj h
          have hrepeat := hknown.resolve_right fun hnew => hnew.2 hcurrent
          refine ⟨statement, nonce, hstatement, hnonce, hreplay ▸ hfresh, by simp [hreplay],
            .inl hrepeat, by simp [hrotations], fun r => ?_⟩
          simp only [hrotations, iff_self_or]
          rintro rfl
          exact hrepeat
      · obtain ⟨-, rfl⟩ := Prod.mk.inj h
        refine ⟨statement, nonce, hstatement, hnonce, hreplay ▸ hfresh, by simp [hreplay],
          hknown.imp_right And.left, by simp [hrotations], fun r => ?_⟩
        simp [hrotations]
  · next hne _ => exact absurd (Prod.mk.inj h).1 hne

/-- Lifecycle transactions keep the accepted rotations. -/
theorem lifecycleApplyTransaction_rotations {s s' : LifecycleState} {tx : Transaction}
    {roots : List (Octets 32)} {provider : HashProvider}
    (h : lifecycleApplyTransaction s tx roots provider = (.ok, s')) :
    s.rotation.rotations <+: s'.rotation.rotations ∧
      (tx.type ≠ .identityRotate → s'.rotation = s.rotation) := by
  simp only [lifecycleApplyTransaction] at h
  split at h
  · obtain ⟨-, id, rfl⟩ := applyGrant_eq_ok h
    exact ⟨List.prefix_rfl, fun _ => rfl⟩
  · obtain ⟨authority, id, rfl⟩ := applyRevoke_eq_ok h
    exact ⟨List.prefix_rfl, fun _ => rfl⟩
  · next htype =>
      obtain ⟨_, _, -, -, -, -, -, hgrows, -⟩ := applyRotate_cases h
      exact ⟨hgrows, fun hne => absurd htype hne⟩
  · split at h
    · simp at h
    · obtain ⟨id, -, -, rfl⟩ := consumeReplayId_eq_ok h
      exact ⟨List.prefix_rfl, fun _ => rfl⟩
  · simp at h

/-- Lifecycle transactions keep the replay identifiers of the accepted rotations. -/
theorem RotationsReplayed.apply {s s' : LifecycleState} {tx : Transaction}
    {roots : List (Octets 32)} {provider : HashProvider} (hs : s.RotationsReplayed provider)
    (h : lifecycleApplyTransaction s tx roots provider = (.ok, s')) :
    s'.RotationsReplayed provider := by
  obtain ⟨id, hreplay⟩ := (lifecycleApplyTransaction_eq_ok h).replay
  intro r hr
  by_cases hold : r ∈ s.rotation.rotations
  · obtain ⟨statement, nonce, hstatement, hnonce, hmem⟩ := hs r hold
    exact ⟨statement, nonce, hstatement, hnonce, by simp [hreplay, hmem]⟩
  · have htype : tx.type = .identityRotate := by
      by_contra htype
      rw [(lifecycleApplyTransaction_rotations h).2 htype] at hr
      exact hold hr
    simp only [lifecycleApplyTransaction, htype] at h
    obtain ⟨statement, nonce, hstatement, hnonce, -, hconsumed, -, -, hrotations⟩ :=
      applyRotate_cases h
    obtain rfl := ((hrotations r).mp hr).resolve_left hold
    exact ⟨statement, nonce, hstatement, hnonce, by simp [hconsumed]⟩

/-- A rotated identity is not rotated again. -/
theorem applyRotate_unused {s s' : LifecycleState} {record : Bytes} {roots : List (Octets 32)}
    {provider : HashProvider} (hs : s.RotationsReplayed provider)
    (h : applyRotate s record roots provider = (.ok, s')) :
    ∀ r ∈ s.rotation.rotations, r.oldIdentity ≠ octetsAt record 1 32 := by
  obtain ⟨statement, nonce, hstatement, hnonce, hfresh, -, hknown, -⟩ := applyRotate_cases h
  refine hknown.resolve_left fun hrepeat => ?_
  -- A repeated rotation has the statement, and so the nonce, of the accepted one.
  obtain ⟨statement', nonce', hstatement', hnonce', hmem⟩ := hs _ hrepeat
  obtain rfl := Option.some.inj (hstatement.symm.trans hstatement')
  obtain rfl := Except.ok.inj (hnonce.symm.trans hnonce')
  exact hfresh hmem

/-! ## Rotations of a history -/

/-- The lifecycle has rotated an identity away. -/
def ChainState.Rotated (s : ChainState) (identity : Octets 32) : Prop :=
  ∃ r ∈ s.lifecycle.rotation.rotations, r.oldIdentity = identity

theorem rotated_kept (c : ChainContext) (identity : Octets 32) :
    LifecycleKept c fun s => ∃ r ∈ s.rotation.rotations, r.oldIdentity = identity where
  rebind _ _ hs := hs
  apply h hs := by
    obtain ⟨r, hr, hold⟩ := hs
    exact ⟨r, (lifecycleApplyTransaction_rotations h).1.subset hr, hold⟩

theorem rotationsReplayed_kept (c : ChainContext) :
    LifecycleKept c fun s => s.RotationsReplayed c.hashProvider where
  rebind _ _ hs := hs
  apply h hs := RotationsReplayed.apply hs h

theorem contracts_preserved : Preserved fun s => s.contracts.state.entries = [] where
  inherit h hs := by
    have hcontracts := h.contracts
    rw [hs] at hcontracts
    exact List.map_eq_nil_iff.mp hcontracts
  single h hs := by
    cases stepOf_of_applyTransaction h with
    | contract _ happly =>
        rw [contractApplyTransaction_empty hs] at happly
        simp at happly
    | issuance _ _ | transfer _ _ | destination _ _ | share _ _ | lifecycle _ _ => exact hs
  pair h hs := by
    obtain ⟨_, _, _, _, _, _, _, _, _, _, _, _, _, _, rfl⟩ := applyPair_eq_ok h
    exact hs

omit [Primitives] in
theorem lifecycleNew_rotations (c : ChainContext) : (lifecycleNew c).rotation.rotations = [] := by
  have hinitial (initial : Octets 32) : (identityRotationInitialize initial).rotations = [] := by
    simp only [identityRotationInitialize]
    split <;> rfl
  simp only [lifecycleNew, lifecycleSetInitialIdentities]
  split <;> exact hinitial _

theorem Reaches.rotationsReplayed {c : ChainContext} {blocks : List Bytes} {s : ChainState}
    (h : Reaches c blocks s) : s.lifecycle.RotationsReplayed c.hashProvider := by
  refine (rotationsReplayed_kept c).reaches ?_ h
  intro r hr
  rw [lifecycleNew_rotations] at hr
  cases hr

/-- An accepted rotation takes its old identity out of use. -/
theorem lifecycleApplyTransaction_rotated {tx : Transaction} (htype : tx.type = .identityRotate)
    {roots : List (Octets 32)} {provider : HashProvider} (s s' : LifecycleState)
    (h : lifecycleApplyTransaction s tx roots provider = (.ok, s')) :
    ∃ r ∈ s'.rotation.rotations, r.oldIdentity = octetsAt tx.record 1 32 := by
  simp only [lifecycleApplyTransaction, htype] at h
  obtain ⟨_, _, -, -, -, -, -, -, hrotations⟩ := applyRotate_cases h
  exact ⟨_, (hrotations _).mpr (.inr rfl), rfl⟩

/-- After a rotation no contract action is accepted, no rotation of the same identity,
and no publication of that identity from the activation height on. -/
theorem rotated_identity_powerless {c : ChainContext} {past rest : List Bytes} {bytes : Bytes}
    {s : ChainState} (h : Accepts c (past ++ bytes :: rest) s) {b : Block}
    (hblock : blockDecode bytes = .ok b) {pre post : List Bytes} {t : Bytes}
    (hsplit : b.transactions = pre ++ t :: post) {tx rotation : Transaction}
    (hdecode : transactionDecode t = .ok tx)
    (hrotation : rotation ∈ historyTransactions past ++ decodedTransactions pre)
    (htype : rotation.type = .identityRotate) :
    tx.type ≠ .contractAction ∧
      (tx.type = .identityRotate →
        octetsAt tx.record 1 32 ≠ octetsAt rotation.record 1 32) ∧
      (tx.type = .publication → s.publicationActivationHeight ≤ b.header.height →
        ∀ record, recordDecode tx.record = .ok record →
          record.signerPublicKey ≠ octetsAt rotation.record 1 32) := by
  obtain ⟨-, hreach⟩ := accepts_iff.mp h
  obtain ⟨prior, s', hprior, hstep, -⟩ := hreach.step_at
  obtain ⟨b', flags, candidate, hprepared, happlied⟩ := reconstructStep_eq_ok_iff.mp hstep
  obtain rfl := Except.ok.inj (hblock.symm.trans hprepared.decode)
  obtain ⟨-, -, -, -, -, -, hinherit⟩ := hprepared.next_state
  have htx : tx ∈ decodedTransactions b.transactions :=
    mem_decodedTransactions.mpr ⟨t, by simp [hsplit], hdecode⟩
  -- The three types have rounds of their own, which start from a state that has rotated the
  -- old identity and holds the replay identifiers of its rotations.
  have hround (hevidence : tx.type ≠ .blockCompensationEvidence)
      (hissuance : tx.type ≠ .issuance) :
      ∃ before after, before.Rotated (octetsAt rotation.record 1 32) ∧
        before.lifecycle.RotationsReplayed c.hashProvider ∧
        before.contracts.state.entries = [] ∧
        applyTransaction (candidateEnv c prior (some past) b flags) tx before = .ok after := by
    have hnone : tx.issuance issuanceReasonBlock = none := by
      simp [Transaction.issuance, hissuance]
    rw [hsplit] at happlied
    obtain ⟨before, after, hpre, hround, -⟩ := happlied.round_at hdecode hevidence hnone
    refine ⟨before, after, ?_, ?_, ?_, hround⟩
    · have hlifecycle : rotation.type.isLifecycle = true := by
        rw [htype]
        rfl
      have hne : rotation.type ≠ .publication := by simp [htype]
      have hkept := rotated_kept c (octetsAt rotation.record 1 32)
      rcases List.mem_append.mp hrotation with hpast | hpre'
      · apply hkept.applied rfl hpre
        apply hkept.inherit hinherit
        exact hkept.reaches_of_mem hlifecycle hne (lifecycleApplyTransaction_rotated htype)
          hpast hprior
      · obtain ⟨t', ht', hdecode'⟩ := mem_decodedTransactions.mp hpre'
        have hin : rotation ∈ decodedTransactions b.transactions :=
          mem_decodedTransactions.mpr ⟨t', by simp [hsplit, ht'], hdecode'⟩
        have hflag := hprepared.hasLifecycle hin hlifecycle fun heq => absurd heq hne
        exact hkept.applied_of_mem rfl hflag hlifecycle hne
          (lifecycleApplyTransaction_rotated htype) hpre' hpre
    · have hkept := rotationsReplayed_kept c
      exact hkept.applied rfl hpre (hkept.inherit hinherit hprior.rotationsReplayed)
    · apply hpre.preserves contracts_preserved
      exact contracts_preserved.inherit hinherit
        (hprior.preserves contracts_preserved fun _ => rfl)
  refine ⟨fun hcontract => ?_, fun hrotate => ?_, fun hpublication hactive record hrecord => ?_⟩
  · obtain ⟨before, after, -, -, hempty, hround⟩ :=
      hround (by simp [hcontract]) (by simp [hcontract])
    cases stepOf_of_applyTransaction hround with
    | contract _ happly =>
        rw [contractApplyTransaction_empty hempty] at happly
        simp at happly
    | issuance htype' _ | transfer htype' _ | destination htype' _ | share htype' _ =>
        simp [hcontract] at htype'
    | lifecycle htype' _ => simp [hcontract, TransactionType.isLifecycle] at htype'
  · obtain ⟨before, after, ⟨r, hr, hold⟩, hreplayed, -, hround⟩ :=
      hround (by simp [hrotate]) (by simp [hrotate])
    have hflag := hprepared.hasLifecycle htx (by rw [hrotate]; rfl) (by simp [hrotate])
    cases stepOf_of_applyTransaction hround with
    | lifecycle _ happly =>
        rcases applyLifecycle_eq_ok happly with ⟨-, hnone | ⟨hpublication, -⟩⟩ | ⟨-, -, hnext⟩
        · simp [candidateEnv, hflag] at hnone
        · simp [hrotate] at hpublication
        · simp only [lifecycleApplyTransaction, hrotate] at hnext
          exact fun heq => applyRotate_unused hreplayed hnext r hr (hold.trans heq.symm)
    | issuance htype' _ | transfer htype' _ | destination htype' _ | contract htype' _
    | share htype' _ => simp [hrotate] at htype'
  · obtain ⟨before, after, ⟨r, hr, hold⟩, -, -, hround⟩ :=
      hround (by simp [hpublication]) (by simp [hpublication])
    have hprioractive : prior.publicationActivationHeight ≤ b.header.height := by
      have hsame := Except.ok.inj (hprior.activation.symm.trans hreach.activation)
      rwa [hsame]
    have hflag := hprepared.hasLifecycle htx (by rw [hpublication]; rfl) fun _ => hprioractive
    cases stepOf_of_applyTransaction hround with
    | lifecycle _ happly =>
        have hcheck := applyLifecycle_checked happly hflag hpublication hprioractive
        obtain ⟨record', _, hrecord', -, -, hunused⟩ := lifecycleCheckPublication_eq_ok hcheck
        obtain rfl := Except.ok.inj (hrecord.symm.trans hrecord')
        exact fun heq => hunused r hr (hold.trans heq.symm)
    | issuance htype' _ | transfer htype' _ | destination htype' _ | contract htype' _
    | share htype' _ => simp [hpublication] at htype'

end

section Sample

/-! ## A sample rotation -/

namespace Sample

/-- SHA-256 of what validating the rotations hashes, by residues modulo `2 ^ 61 - 1`. -/
def rotationDigests : List (ℕ × ℕ) :=
  [(0x17ca2981b7da3628,
      0x9ac62d74550f788fbbd839d25af653d39f472d38c5361ce5f6e62f41208a5f6e),
   (0x1574ccc9453d33b0,
      0x36e0b2bd159578b17bc759d143ea9ff3c0f44b39c6006defe3ae85dffeccca35),
   (0x1b9a09430db02777,
      0x68315bdf3e6515712b617d81ff7fad1b3f794c2087dbcc1332a057b0348f94c0),
   (0x1c73b4516626e422,
      0x7abbc85db896c77f11684df0c1708e836e0863117657574540a1b731f3bf9c77),
   (0x1dd35b318d2ec61d,
      0xc9fda49b9a1a8eeef6f67cbf3683c5a5ba46ac3ed0dd62cccbef68fcbad3c717),
   (0xd50ff7f4888570a,
      0x63455b5761ef916890c3db36c62b3948f47c8ce31aa439cc3a47036f7d0860fe),
   (0x1ed6046f3b6e639a,
      0x061059faf9e59ca77b5798bc8dc78341fec3d30a8a8200eec85a7618e5e4dfdd),
   (0x120355ca9626e4f7,
      0x1edcaaa6918ad6fb896009acdb9a28631c6a45318fc9facc67af33c86b332c33)]

/-- An initial identity. -/
def first : Octets 32 :=
  0x63127b00495991c1678e1b3045ff9d1730e2f7b561ed3f180bf2528fa3b7270a

/-- The identity it is rotated to. -/
def second : Octets 32 :=
  0xcbbe5a023e9f4360bdaa252a7ed99d1814be72ace1d105d34eeb99b555e1887c

/-- The identity the second one is rotated to. -/
def third : Octets 32 :=
  0x85087c2906bcb8abe4e2c663a7ff4f11b5d1772426cbe9a8077bd635794a96c8

/-- What the old identity of a rotation signs. -/
def rotationStatement (oldId newId : Octets 32) : Bytes :=
  cString "STN-CHAIN:IDENTITY:ROTATE:1" ++ [1] ++ octetBytes oldId ++ octetBytes newId

/-- The first identity's signature of its rotation. -/
def firstSignature : Octets 64 :=
  BitVec.ofNat 512 (0x61dde70bba711cdaeca98be263d137ba510606de9e7ef5b0dfd452491c4f2dde * 2 ^ 256 +
    0xc18508056b33792654ed72eff9a3ed8d7c3146358c401f98ab2856307530140d)

/-- The second identity's signature of its rotation. -/
def secondSignature : Octets 64 :=
  BitVec.ofNat 512 (0x49277571dd46401e648514b6f26bab6e11bf5126c0d306080d21302e43e53b17 * 2 ^ 256 +
    0x8b7a8250681677334562b88a2f9a4fac6cdb5a6ad57a7ff923c8a77da218220f)

/-- A publication of the first identity, without its signature. -/
def unsignedPublication : Bytes :=
  [0x53, 0x54, 0x4e, 0x52] ++ wireWrite 2 1 ++ wireWrite 2 1 ++ List.replicate 32 0x11 ++
    octetBytes first ++ List.replicate 32 5 ++ wireWrite 8 1000 ++ wireWrite 4 64 ++
    wireWrite 2 1 ++ wireWrite 8 1000 ++ [5] ++ wireWrite 2 4 ++ ascii "scan" ++
    wireWrite 2 7 ++ ascii "host.io" ++ wireWrite 2 4 ++ ascii "port" ++ List.replicate 32 0x22

/-- The first identity's signature of its publication. -/
def publicationSignature : Octets 64 :=
  BitVec.ofNat 512 (0xf141b267a1d6f4a323f92b4763d156ff943261ad554dfa077661550d7cdcd64a * 2 ^ 256 +
    0xb359d38f83844060380d7e8d7c17a39821465f71e06512dbd3982a7dd81e2905)

/-- SHA-256 and Ed25519 as far as the rotations ask for them. -/
@[reducible] def rotating : Primitives where
  sha256 domain bytes := .ok (BitVec.ofNat 256 (((rotationDigests ++ digests).lookup
    (BigEndian.read (domain ++ bytes) % (2 ^ 61 - 1))).getD 1))
  ed25519Verify statement key signature := decide (
    (statement, key, signature) ∈
      [(rotationStatement first second, first, firstSignature),
        (rotationStatement second third, second, secondSignature),
        (identityStatement unsignedPublication, first, publicationSignature)])

/-- The record of a rotation. -/
def rotationRecord (oldId newId : Octets 32) (signature : Octets 64) : Bytes :=
  [1] ++ octetBytes oldId ++ octetBytes newId ++ octetBytes signature

/-- A rotation transaction. -/
def rotate (oldId newId : Octets 32) (signature : Octets 64) : Bytes :=
  transaction .identityRotate (rotationRecord oldId newId signature)

/-- The record of the publication. -/
def publicationRecord : Bytes :=
  unsignedPublication ++ octetBytes publicationSignature

/-- The publication transaction. -/
def publication : Bytes :=
  transaction .publication publicationRecord

/-- A genesis block with two rotations and a publication of the first identity between them. -/
def rotatingGenesis : Bytes :=
  block 0 0
    0x68315bdf3e6515712b617d81ff7fad1b3f794c2087dbcc1332a057b0348f94c0 1
    [rotate first second firstSignature, publication, rotate second third secondSignature]

/-- The context of the rotations. -/
def rotatingContext : ChainContext :=
  { context with
    genesisBytes := rotatingGenesis
    genesisInitialIdentities := [first]
    hashProvider := ⟨some rotating.sha256⟩ }

end Sample

attribute [local instance] Sample.rotating

open Sample

theorem sample_rotations_block : ∃ b, blockDecode rotatingGenesis = .ok b ∧
    b.transactions = [rotate first second firstSignature, publication,
      rotate second third secondSignature] := by
  have hmap : (blockDecode rotatingGenesis).map Block.transactions =
      .ok [rotate first second firstSignature, publication,
        rotate second third secondSignature] := by
    decide +kernel
  cases hdecode : blockDecode rotatingGenesis with
  | error status => simp [hdecode, Except.map] at hmap
  | ok b => exact ⟨b, rfl, by simpa [hdecode, Except.map] using hmap⟩

theorem sample_rotation_decodes :
    transactionDecode (rotate first second firstSignature) =
      .ok ⟨1, .identityRotate, rotationRecord first second firstSignature⟩ := by
  decide +kernel

/-- A genesis block is below every activation height, so its publications pass unchecked. -/
theorem sample_rotated_publishes :
    ¬ ∀ (c : ChainContext) (past rest : List Bytes) (bytes : Bytes) (s : ChainState),
      Accepts c (past ++ bytes :: rest) s → ∀ b, blockDecode bytes = .ok b →
        ∀ pre t post, b.transactions = pre ++ t :: post → ∀ tx rotation,
          transactionDecode t = .ok tx →
          rotation ∈ historyTransactions past ++ decodedTransactions pre →
          rotation.type = .identityRotate → tx.type = .publication →
          ∀ record, recordDecode tx.record = .ok record →
            record.signerPublicKey ≠ octetsAt rotation.record 1 32 := by
  intro h
  obtain ⟨s, hs⟩ : ∃ s, Accepts rotatingContext [rotatingGenesis] s :=
    accepts_of_isSome (by decide +kernel)
  obtain ⟨b, hdecode, htransactions⟩ := sample_rotations_block
  have hpublication : transactionDecode publication =
      .ok ⟨1, .publication, publicationRecord⟩ := by
    decide +kernel
  have hsigner : (recordDecode publicationRecord).map Record.signerPublicKey = .ok first := by
    decide +kernel
  have hold : octetsAt (rotationRecord first second firstSignature) 1 32 = first := by
    decide +kernel
  cases hrecord : recordDecode publicationRecord with
  | error status => simp [hrecord, Except.map] at hsigner
  | ok record =>
      have hfirst : record.signerPublicKey = first := by
        simpa [hrecord, Except.map] using hsigner
      refine h rotatingContext [] [] rotatingGenesis s hs b hdecode
        [rotate first second firstSignature] publication _ htransactions
        ⟨1, .publication, publicationRecord⟩
        ⟨1, .identityRotate, rotationRecord first second firstSignature⟩ hpublication
        ?_ rfl rfl record hrecord (hfirst.trans hold.symm)
      rw [decodedTransactions_cons sample_rotation_decodes]
      simp

/-- The second rotation is not one of the identity the first has taken out of use. -/
theorem sample_rotated_powerless : ∃ s, Accepts rotatingContext [rotatingGenesis] s ∧
    octetsAt (rotationRecord second third secondSignature) 1 32 ≠
      octetsAt (rotationRecord first second firstSignature) 1 32 := by
  obtain ⟨s, hs⟩ : ∃ s, Accepts rotatingContext [rotatingGenesis] s :=
    accepts_of_isSome (by decide +kernel)
  obtain ⟨b, hdecode, htransactions⟩ := sample_rotations_block
  have hsecond : transactionDecode (rotate second third secondSignature) =
      .ok ⟨1, .identityRotate, rotationRecord second third secondSignature⟩ := by
    decide +kernel
  have hearlier : (⟨1, .identityRotate, rotationRecord first second firstSignature⟩ :
      Transaction) ∈ historyTransactions [] ++
        decodedTransactions [rotate first second firstSignature, publication] := by
    rw [decodedTransactions_cons sample_rotation_decodes]
    simp
  have hsplit : b.transactions = [rotate first second firstSignature, publication] ++
      rotate second third secondSignature :: [] := htransactions
  have hall : Accepts rotatingContext ([] ++ rotatingGenesis :: []) s := hs
  exact ⟨s, hs, (rotated_identity_powerless hall hdecode hsplit hsecond hearlier rfl).2.1 rfl⟩

end Sample

end StnChain
