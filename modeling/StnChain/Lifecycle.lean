import StnChain.Transaction

/-!
# The lifecycle component

Accepted grants, revocations, rotations and consumed replay identifiers, and
the transactions that change them (`stn_lifecycle.c`).  The storage of grants
and replay identifiers belongs to the caller, so both lists carry their
capacity.
-/

namespace StnChain

variable [Primitives]

/-- `stn_lifecycle_result`. -/
inductive LifecycleResult
  | ok | argument | malformed | invalid | replay | capacity | provider
  deriving DecidableEq, Repr

/-- `stn_lifecycle_state`. -/
structure LifecycleState where
  grants : List Bytes
  grantCapacity : ℕ
  authority : AuthorityState
  rotation : IdentityRotationState
  replay : ReplayState
  initialIdentity : Octets 32
  initialIdentities : List (Octets 32)

/-- `STN_GENESIS_INITIAL_IDENTITY_MAX`. -/
def genesisInitialIdentityMax : ℕ := 16

/-- `stn_lifecycle_initialize`. -/
def lifecycleInitialize (grantCapacity replayCapacity : ℕ) (initial : Octets 32) :
    LifecycleState where
  grants := []
  grantCapacity
  authority := ⟨[]⟩
  rotation := identityRotationInitialize initial
  replay := replayStateInitialize replayCapacity
  initialIdentity := initial
  initialIdentities := []

/-- `stn_lifecycle_set_initial_identities`. -/
def lifecycleSetInitialIdentities (s : LifecycleState) (ids : List (Octets 32)) :
    LifecycleState :=
  if ids.length > genesisInitialIdentityMax then s else { s with initialIdentities := ids }

/-- `stn_lifecycle_rebind`: the same content over storage of other capacities. -/
def lifecycleRebind (s : LifecycleState) (grantCapacity replayCapacity : ℕ) : LifecycleState :=
  { s with grantCapacity, replay := { s.replay with capacity := replayCapacity } }

/-- `map_rev` and `map_rot`. -/
def mapStatementResult : StatementResult → LifecycleResult
  | .valid => .ok
  | .malformed => .malformed
  | .invalid => .invalid

/-- `stn_lifecycle_replay_nonce`, over the wire value of the transaction type. -/
def lifecycleReplayNonce (type : TransactionType) (statement : Bytes) (provider : HashProvider) :
    Except LifecycleResult (Octets 32) :=
  match provider.hash with
  | none => .error .argument
  | some hash =>
      if statement.length > 28 + authorityGrantSize then .error .argument
      else
        match hash [] (cString "STN-CHAIN:LIFECYCLE:REPLAY:1" ++ wireWrite 2 type.toWire ++
            statement) with
        | .error _ => .error .provider
        | .ok nonce => if nonce = 0 then .error .malformed else .ok nonce

/-- The replay half of `consume` and `consume_publication`. -/
def consumeReplayId (s : LifecycleState) (signer nonce : Octets 32) :
    LifecycleResult × LifecycleState :=
  match replayIdFromSignerNonce signer nonce with
  | none => (.malformed, s)
  | some id =>
      if replayStateCheck s.replay id = .replay then (.replay, s)
      else
        match replayStateConsume s.replay id with
        | (.fresh, replay) => (.ok, { s with replay })
        | _ => (.capacity, s)

/-- `consume`. -/
def lifecycleConsume (s : LifecycleState) (signer : Octets 32) (type : TransactionType)
    (statement : Bytes) (provider : HashProvider) : LifecycleResult × LifecycleState :=
  match lifecycleReplayNonce type statement provider with
  | .error result => (result, s)
  | .ok nonce => consumeReplayId s signer nonce

/-- `find_grant`. -/
def findGrant (s : LifecycleState) (id : Octets 32) (provider : HashProvider) : Option Bytes :=
  s.grants.find? fun grant =>
    match authorityGrantId grant provider with
    | .ok digest => digest = id
    | .error _ => false

/-! ## Publications -/

/-- The grant loop of `stn_lifecycle_check_publication`; `authorized` is its flag. -/
def publicationAuthorized (s : LifecycleState) (signer action context : Octets 32)
    (provider : HashProvider) : Bool → List Bytes → Except LifecycleResult Bool
  | authorized, [] => .ok authorized
  | authorized, grant :: rest =>
      let evidence := BigEndian.field grant 33 authorityEvidenceSize
      if !authorityEvidenceValidate evidence then .error .invalid
      else
        match authorityGrantId grant provider with
        | .error _ => .error .provider
        | .ok grantId =>
            let grants := !authorityStateIsRevoked s.authority grantId &&
              authorityEvaluate signer action context (some evidence) = .authorized
            publicationAuthorized s signer action context provider (authorized || grants) rest

/-- `stn_lifecycle_check_publication`. -/
def lifecycleCheckPublication (s : LifecycleState) (bytes : Bytes) (provider : HashProvider) :
    LifecycleResult :=
  match recordDecode bytes with
  | .error _ => .malformed
  | .ok record =>
      match intelligenceDecode record.payload with
      | .error _ => .malformed
      | .ok _ =>
          match recordPublicationTokens bytes provider with
          | .error _ => .provider
          | .ok (action, context) =>
              match recordId bytes provider with
              | .error _ => .provider
              | .ok _ =>
                  if identityVerify record.signerPublicKey
                      (identityStatement (recordUnsigned bytes record)) record.signature ≠ .valid
                  then .invalid
                  else if s.rotation.rotations.any fun r => r.oldIdentity = record.signerPublicKey
                  then .invalid
                  else
                    match publicationAuthorized s record.signerPublicKey action context provider
                        false s.grants with
                    | .error result => result
                    | .ok false => .invalid
                    | .ok true =>
                        match replayIdFromSignerNonce record.signerPublicKey record.nonce with
                        | none => .malformed
                        | some id =>
                            if replayStateCheck s.replay id = .fresh then .ok else .replay

/-! ## Lifecycle transactions -/

/-- The grant branch of `stn_lifecycle_apply_transaction`. -/
def applyGrant (s : LifecycleState) (record : Bytes) (roots : List (Octets 32))
    (provider : HashProvider) : LifecycleResult × LifecycleState :=
  if record.length ≠ authorityGrantSize ∨ authorityGrantValidate record roots ≠ .valid then
    (.invalid, s)
  else
    match authorityGrantStatement (octetsAt record 1 32)
        (BigEndian.field record 33 authorityEvidenceSize) with
    | none => (.invalid, s)
    | some statement =>
        if s.grants.length ≥ s.grantCapacity then (.capacity, s)
        else
          match lifecycleConsume s (octetsAt record 1 32) .authorityGrant statement provider with
          | (.ok, s) => (.ok, { s with grants := s.grants ++ [record] })
          | (result, s) => (result, s)

/-- The revocation branch of `stn_lifecycle_apply_transaction`. -/
def applyRevoke (s : LifecycleState) (record : Bytes) (roots : List (Octets 32))
    (provider : HashProvider) : LifecycleResult × LifecycleState :=
  if record.length ≠ authorityRevocationSize then (.invalid, s)
  else
    match findGrant s (octetsAt record 33 32) provider with
    | none => (.invalid, s)
    | some grant =>
        if s.authority.revokedIds.length ≥ authorityMaxRevoked then (.capacity, s)
        else if (authorityRevocationValidate record grant roots provider).1 ≠ .valid then
          (.invalid, s)
        else
          match authorityRevocationStatement (octetsAt record 1 32) (octetsAt record 33 32) with
          | none => (.invalid, s)
          | some statement =>
              match lifecycleConsume s (octetsAt record 1 32) .authorityRevoke statement provider
              with
              | (.ok, s) =>
                  let applied := authorityStateApply s.authority record grant roots provider
                  (mapStatementResult applied.1, { s with authority := applied.2 })
              | (result, s) => (result, s)

/-- The identity a rotation starts from: the first may start from any initial one,
which is made the current one and taken back when the rotation fails. -/
def seedRotation (s : LifecycleState) (oldId : Octets 32) : LifecycleState :=
  if s.rotation.rotations = [] then
    { s with rotation := { s.rotation with currentIdentity := oldId } }
  else s

/-- The rotation branch of `stn_lifecycle_apply_transaction`. -/
def applyRotate (s : LifecycleState) (record : Bytes) (roots : List (Octets 32))
    (provider : HashProvider) : LifecycleResult × LifecycleState :=
  let oldId := octetsAt record 1 32
  if record.length ≠ authorityRotationSize then (.invalid, s)
  else if s.rotation.rotations = [] ∧ oldId ∉ s.initialIdentities then (.invalid, s)
  else
    let seeded := seedRotation s oldId
    if identityRotationValidate record seeded.rotation roots ≠ .valid then (.invalid, s)
    else if seeded.rotation.rotations.length ≥ authorityMaxRotations then (.capacity, seeded)
    else
      match identityRotationStatement oldId (octetsAt record 33 32) with
      | none => (.invalid, seeded)
      | some statement =>
          match lifecycleConsume seeded oldId .identityRotate statement provider with
          | (.ok, s) =>
              let applied := identityRotationApply s.rotation record roots
              (mapStatementResult applied.1, { s with rotation := applied.2 })
          | (result, _) => (result, s)

/-- `stn_lifecycle_apply_transaction`. -/
def lifecycleApplyTransaction (s : LifecycleState) (tx : Transaction)
    (roots : List (Octets 32)) (provider : HashProvider) : LifecycleResult × LifecycleState :=
  match tx.type with
  | .authorityGrant => applyGrant s tx.record roots provider
  | .authorityRevoke => applyRevoke s tx.record roots provider
  | .identityRotate => applyRotate s tx.record roots provider
  | .publication =>
      match recordDecode tx.record with
      | .error _ => (.malformed, s)
      | .ok record => consumeReplayId s record.signerPublicKey record.nonce
  | _ => (.malformed, s)

/-! ## What a transaction establishes -/

omit [Primitives] in
/-- A consumption appends one fresh identifier. -/
theorem consumeReplayId_eq_ok {s s' : LifecycleState} {signer nonce : Octets 32}
    (h : consumeReplayId s signer nonce = (.ok, s')) :
    ∃ id, replayIdFromSignerNonce signer nonce = some id ∧ id ∉ s.replay.consumed ∧
      s' = { s with replay := { s.replay with consumed := s.replay.consumed ++ [id] } } := by
  simp only [consumeReplayId] at h
  split at h
  · simp at h
  next id hid =>
  split at h
  · simp at h
  split at h
  · next replay hconsume =>
      obtain rfl := (Prod.mk.inj h).2
      simp only [replayStateConsume] at hconsume
      split at hconsume
      · simp at hconsume
      next hwithin =>
      split at hconsume
      · simp at hconsume
      · simp at hconsume
      next hcheck =>
      split at hconsume
      · simp at hconsume
      · obtain rfl := (Prod.mk.inj hconsume).2
        refine ⟨id, hid, ?_, rfl⟩
        intro hmem
        simp [replayStateCheck, hwithin, hmem] at hcheck
  · simp at h

omit [Primitives] in
theorem lifecycleReplayNonce_ne_ok {type : TransactionType} {statement : Bytes}
    {provider : HashProvider} : lifecycleReplayNonce type statement provider ≠ .error .ok := by
  simp only [lifecycleReplayNonce]
  split
  · simp
  split
  · simp
  split
  · simp
  · split <;> simp

omit [Primitives] in
theorem lifecycleConsume_eq_ok {s s' : LifecycleState} {signer : Octets 32}
    {type : TransactionType} {statement : Bytes} {provider : HashProvider}
    (h : lifecycleConsume s signer type statement provider = (.ok, s')) :
    ∃ id, s' = { s with replay := { s.replay with consumed := s.replay.consumed ++ [id] } } := by
  simp only [lifecycleConsume] at h
  split at h
  · next result hnonce =>
      obtain rfl := (Prod.mk.inj h).1
      exact absurd hnonce lifecycleReplayNonce_ne_ok
  · obtain ⟨id, -, -, rfl⟩ := consumeReplayId_eq_ok h
    exact ⟨id, rfl⟩

omit [Primitives] in
theorem publicationAuthorized_ne_ok {s : LifecycleState} {signer action context : Octets 32}
    {provider : HashProvider} {authorized : Bool} {grants : List Bytes} :
    publicationAuthorized s signer action context provider authorized grants ≠ .error .ok := by
  induction grants generalizing authorized with
  | nil => simp [publicationAuthorized]
  | cons grant rest ih =>
      simp only [publicationAuthorized]
      split
      · simp
      split
      · simp
      · exact ih

/-- What a publication that passes its check establishes. -/
theorem lifecycleCheckPublication_eq_ok {s : LifecycleState} {bytes : Bytes}
    {provider : HashProvider} (h : lifecycleCheckPublication s bytes provider = .ok) :
    ∃ record id, recordDecode bytes = .ok record ∧
      replayIdFromSignerNonce record.signerPublicKey record.nonce = some id ∧
      replayStateCheck s.replay id = .fresh ∧
      ∀ r ∈ s.rotation.rotations, r.oldIdentity ≠ record.signerPublicKey := by
  simp only [lifecycleCheckPublication] at h
  split at h
  · simp at h
  next record hdecode =>
  split at h
  · simp at h
  split at h
  · simp at h
  split at h
  · simp at h
  split at h
  · simp at h
  split at h
  · simp at h
  next hrotated =>
  split at h
  · next result hloop =>
      subst h
      exact absurd hloop publicationAuthorized_ne_ok
  · simp at h
  split at h
  · simp at h
  next id hid =>
  split at h
  · next hfresh =>
      exact ⟨record, id, hdecode, hid, hfresh, by simpa using hrotated⟩
  · simp at h

/-- The transactions the lifecycle component handles. -/
def TransactionType.isLifecycle : TransactionType → Bool
  | .publication | .authorityGrant | .authorityRevoke | .identityRotate => true
  | _ => false

/-- The grant a transaction adds. -/
def Transaction.granted (tx : Transaction) : List Bytes :=
  if tx.type = .authorityGrant then [tx.record] else []

/-- What a successful transaction does to the stored lists. -/
structure LifecycleAdvance (tx : Transaction) (roots : List (Octets 32))
    (s s' : LifecycleState) : Prop where
  type : tx.type.isLifecycle = true
  grants : s'.grants = s.grants ++ tx.granted
  grantCapacity : s'.grantCapacity = s.grantCapacity
  replay : ∃ id, s'.replay = { s.replay with consumed := s.replay.consumed ++ [id] }
  valid : ∀ grant ∈ tx.granted, authorityGrantValidate grant roots = .valid

theorem applyGrant_eq_ok {s s' : LifecycleState} {record : Bytes} {roots : List (Octets 32)}
    {provider : HashProvider} (h : applyGrant s record roots provider = (.ok, s')) :
    authorityGrantValidate record roots = .valid ∧
      ∃ id, s' = { s with
        grants := s.grants ++ [record]
        replay := { s.replay with consumed := s.replay.consumed ++ [id] } } := by
  simp only [applyGrant] at h
  split at h
  · simp at h
  next hvalid =>
  split at h
  · simp at h
  split at h
  · simp at h
  split at h
  · next hconsume =>
      obtain ⟨id, rfl⟩ := lifecycleConsume_eq_ok hconsume
      obtain rfl := (Prod.mk.inj h).2
      exact ⟨not_not.mp (not_or.mp hvalid).2, id, rfl⟩
  · next hne _ => exact absurd (Prod.mk.inj h).1 hne

theorem applyRevoke_eq_ok {s s' : LifecycleState} {record : Bytes} {roots : List (Octets 32)}
    {provider : HashProvider} (h : applyRevoke s record roots provider = (.ok, s')) :
    ∃ authority id, s' = { s with
      authority
      replay := { s.replay with consumed := s.replay.consumed ++ [id] } } := by
  simp only [applyRevoke] at h
  split at h
  · simp at h
  split at h
  · simp at h
  split at h
  · simp at h
  split at h
  · simp at h
  split at h
  · simp at h
  split at h
  · next hconsume =>
      obtain ⟨id, rfl⟩ := lifecycleConsume_eq_ok hconsume
      obtain rfl := (Prod.mk.inj h).2
      exact ⟨_, id, rfl⟩
  · next hne _ => exact absurd (Prod.mk.inj h).1 hne

omit [Primitives] in
theorem seedRotation_eq (s : LifecycleState) (oldId : Octets 32) :
    ∃ rotation, seedRotation s oldId = { s with rotation } := by
  simp only [seedRotation]
  split
  · exact ⟨_, rfl⟩
  · exact ⟨s.rotation, rfl⟩

theorem applyRotate_eq_ok {s s' : LifecycleState} {record : Bytes} {roots : List (Octets 32)}
    {provider : HashProvider} (h : applyRotate s record roots provider = (.ok, s')) :
    ∃ rotation id, s' = { s with
      rotation
      replay := { s.replay with consumed := s.replay.consumed ++ [id] } } := by
  obtain ⟨rotation, hseed⟩ := seedRotation_eq s (octetsAt record 1 32)
  simp only [applyRotate, hseed] at h
  split at h
  · simp at h
  split at h
  · simp at h
  split at h
  · simp at h
  split at h
  · simp at h
  split at h
  · simp at h
  split at h
  · next hconsume =>
      obtain ⟨id, rfl⟩ := lifecycleConsume_eq_ok hconsume
      obtain rfl := (Prod.mk.inj h).2
      exact ⟨_, id, rfl⟩
  · next hne _ => exact absurd (Prod.mk.inj h).1 hne

/-- A successful transaction appends one replay identifier, and its grant if it is one. -/
theorem lifecycleApplyTransaction_eq_ok {s s' : LifecycleState} {tx : Transaction}
    {roots : List (Octets 32)} {provider : HashProvider}
    (h : lifecycleApplyTransaction s tx roots provider = (.ok, s')) :
    LifecycleAdvance tx roots s s' := by
  simp only [lifecycleApplyTransaction] at h
  split at h
  · next htype =>
      obtain ⟨hvalid, id, rfl⟩ := applyGrant_eq_ok h
      exact ⟨by rw [htype]; rfl, by simp [Transaction.granted, htype], rfl, ⟨id, rfl⟩,
        by simpa [Transaction.granted, htype] using hvalid⟩
  · next htype =>
      obtain ⟨authority, id, rfl⟩ := applyRevoke_eq_ok h
      exact ⟨by rw [htype]; rfl, by simp [Transaction.granted, htype], rfl, ⟨id, rfl⟩,
        by simp [Transaction.granted, htype]⟩
  · next htype =>
      obtain ⟨rotation, id, rfl⟩ := applyRotate_eq_ok h
      exact ⟨by rw [htype]; rfl, by simp [Transaction.granted, htype], rfl, ⟨id, rfl⟩,
        by simp [Transaction.granted, htype]⟩
  · next htype =>
      split at h
      · simp at h
      · obtain ⟨id, -, -, rfl⟩ := consumeReplayId_eq_ok h
        exact ⟨by rw [htype]; rfl, by simp [Transaction.granted, htype], rfl, ⟨id, rfl⟩,
          by simp [Transaction.granted, htype]⟩
  · simp at h

/-! ## Capacity -/

/-- Room for further grants and replay identifiers. -/
structure LifecycleState.Room (s : LifecycleState) (grants replays : ℕ) : Prop where
  grants : s.grants.length + grants ≤ s.grantCapacity
  replays : s.replay.consumed.length + replays ≤ s.replay.capacity

theorem LifecycleAdvance.room {tx : Transaction} {roots : List (Octets 32)}
    {s s' : LifecycleState} (h : LifecycleAdvance tx roots s s') {m n : ℕ}
    (hroom : s.Room (tx.granted.length + m) (n + 1)) : s'.Room m n := by
  obtain ⟨id, hreplay⟩ := h.replay
  have hgrants := hroom.grants
  have hreplays := hroom.replays
  constructor
  · rw [h.grants, h.grantCapacity, List.length_append]
    omega
  · rw [hreplay]
    simp only [List.length_append, List.length_singleton]
    omega

omit [Primitives] in
theorem Transaction.length_granted_le (tx : Transaction) : tx.granted.length ≤ 1 := by
  simp only [Transaction.granted]
  split <;> simp

omit [Primitives] in
theorem replayStateCheck_of_le {s : ReplayState} (h : s.consumed.length ≤ s.capacity)
    (id : ReplayId) : replayStateCheck s id = if id ∈ s.consumed then .replay else .fresh := by
  simp [replayStateCheck, Nat.not_lt.mpr h]

section Rebind

variable {s : LifecycleState} {grants replays m : ℕ} (hroom : s.Room m 1)
  (hroom' : (lifecycleRebind s grants replays).Room m 1)

include hroom hroom'

omit [Primitives] in
theorem consumeReplayId_rebind (signer nonce : Octets 32) :
    consumeReplayId (lifecycleRebind s grants replays) signer nonce =
      (consumeReplayId s signer nonce).map id (lifecycleRebind · grants replays) := by
  have hreplays := hroom.replays
  have hreplays' : s.replay.consumed.length + 1 ≤ replays := hroom'.replays
  simp only [consumeReplayId]
  cases replayIdFromSignerNonce signer nonce with
  | none => rfl
  | some id =>
      by_cases hmem : id ∈ s.replay.consumed
      · simp [replayStateCheck, lifecycleRebind, hmem, Nat.not_lt.mpr (Nat.le_of_lt hreplays),
          Nat.not_lt.mpr (Nat.le_of_lt hreplays')]
      · simp [replayStateCheck, replayStateConsume, lifecycleRebind, hmem,
          Nat.not_lt.mpr (Nat.le_of_lt hreplays), Nat.not_lt.mpr (Nat.le_of_lt hreplays'),
          Nat.ne_of_lt hreplays, Nat.ne_of_lt hreplays']

omit [Primitives] in
theorem lifecycleConsume_rebind (signer : Octets 32) (type : TransactionType)
    (statement : Bytes) (provider : HashProvider) :
    lifecycleConsume (lifecycleRebind s grants replays) signer type statement provider =
      (lifecycleConsume s signer type statement provider).map id
        (lifecycleRebind · grants replays) := by
  simp only [lifecycleConsume]
  cases lifecycleReplayNonce type statement provider with
  | error result => rfl
  | ok nonce => exact consumeReplayId_rebind hroom hroom' signer nonce

theorem applyGrant_rebind (hm : 1 ≤ m) (record : Bytes) (roots : List (Octets 32))
    (provider : HashProvider) :
    applyGrant (lifecycleRebind s grants replays) record roots provider =
      (applyGrant s record roots provider).map id (lifecycleRebind · grants replays) := by
  have hgrants : ¬s.grants.length ≥ s.grantCapacity := by
    have := hroom.grants
    omega
  have hgrants' : ¬(lifecycleRebind s grants replays).grants.length ≥
      (lifecycleRebind s grants replays).grantCapacity := by
    have := hroom'.grants
    omega
  simp only [applyGrant, lifecycleConsume_rebind hroom hroom']
  split
  · rfl
  cases authorityGrantStatement (octetsAt record 1 32)
      (BigEndian.field record 33 authorityEvidenceSize) with
  | none => rfl
  | some statement =>
      dsimp only
      rcases lifecycleConsume s (octetsAt record 1 32) .authorityGrant statement provider with
        ⟨_ | _, s'⟩ <;> rfl

theorem applyRevoke_rebind (record : Bytes) (roots : List (Octets 32)) (provider : HashProvider) :
    applyRevoke (lifecycleRebind s grants replays) record roots provider =
      (applyRevoke s record roots provider).map id (lifecycleRebind · grants replays) := by
  have hfind : findGrant (lifecycleRebind s grants replays) = findGrant s := rfl
  have hauthority : (lifecycleRebind s grants replays).authority = s.authority := rfl
  simp only [applyRevoke, lifecycleConsume_rebind hroom hroom', hfind, hauthority]
  split
  · rfl
  cases findGrant s (octetsAt record 33 32) provider with
  | none => rfl
  | some grant =>
      by_cases hfull : s.authority.revokedIds.length ≥ authorityMaxRevoked
      · simp [hfull]
      by_cases hvalid : (authorityRevocationValidate record grant roots provider).1 = .valid
      · simp only [hfull, hvalid, ne_eq, not_true_eq_false, ↓reduceIte]
        cases authorityRevocationStatement (octetsAt record 1 32) (octetsAt record 33 32) with
        | none => rfl
        | some statement =>
            dsimp only
            rcases lifecycleConsume s (octetsAt record 1 32) .authorityRevoke statement provider
              with ⟨_ | _, s'⟩ <;> rfl
      · simp [hfull, hvalid]

omit hroom hroom' [Primitives] in
theorem seedRotation_rebind (oldId : Octets 32) :
    seedRotation (lifecycleRebind s grants replays) oldId =
      lifecycleRebind (seedRotation s oldId) grants replays := by
  by_cases hfirst : s.rotation.rotations = [] <;> simp [seedRotation, lifecycleRebind, hfirst]

omit hroom hroom' [Primitives] in
theorem LifecycleState.Room.seed {n : ℕ} (h : s.Room m n) (oldId : Octets 32) :
    (seedRotation s oldId).Room m n := by
  simp only [seedRotation]
  split
  · exact ⟨h.grants, h.replays⟩
  · exact h

theorem applyRotate_rebind (record : Bytes) (roots : List (Octets 32)) (provider : HashProvider) :
    applyRotate (lifecycleRebind s grants replays) record roots provider =
      (applyRotate s record roots provider).map id (lifecycleRebind · grants replays) := by
  have hrotation (t : LifecycleState) :
      (lifecycleRebind t grants replays).rotation = t.rotation := rfl
  have hids : (lifecycleRebind s grants replays).initialIdentities = s.initialIdentities := rfl
  have hroomSeeded := hroom.seed (octetsAt record 1 32)
  have hroomSeeded' := hroom'.seed (octetsAt record 1 32)
  rw [seedRotation_rebind] at hroomSeeded'
  simp only [applyRotate, seedRotation_rebind, hrotation, hids,
    lifecycleConsume_rebind hroomSeeded hroomSeeded']
  split
  · rfl
  split
  · rfl
  split
  · rfl
  split
  · rfl
  cases identityRotationStatement (octetsAt record 1 32) (octetsAt record 33 32) with
  | none => rfl
  | some statement =>
      dsimp only
      rcases lifecycleConsume (seedRotation s (octetsAt record 1 32)) (octetsAt record 1 32)
        .identityRotate statement provider with ⟨_ | _, s'⟩ <;> rfl

theorem lifecycleCheckPublication_rebind (bytes : Bytes) (provider : HashProvider) :
    lifecycleCheckPublication (lifecycleRebind s grants replays) bytes provider =
      lifecycleCheckPublication s bytes provider := by
  have hscan (signer action context : Octets 32) (authorized : Bool) (rest : List Bytes) :
      publicationAuthorized (lifecycleRebind s grants replays) signer action context provider
        authorized rest =
          publicationAuthorized s signer action context provider authorized rest := by
    induction rest generalizing authorized with
    | nil => rfl
    | cons grant rest ih => simp only [publicationAuthorized, ih]; rfl
  have hcheck (id : ReplayId) : replayStateCheck (lifecycleRebind s grants replays).replay id =
      replayStateCheck s.replay id := by
    rw [replayStateCheck_of_le (Nat.le_of_lt hroom'.replays),
      replayStateCheck_of_le (Nat.le_of_lt hroom.replays)]
    rfl
  simp only [lifecycleCheckPublication, hscan, hcheck]
  rfl

end Rebind

/-- With room, a lifecycle transaction does the same over storage of any capacity. -/
theorem lifecycleApplyTransaction_rebind {s : LifecycleState} {grants replays : ℕ}
    {tx : Transaction} (hroom : s.Room tx.granted.length 1)
    (hroom' : (lifecycleRebind s grants replays).Room tx.granted.length 1)
    (roots : List (Octets 32)) (provider : HashProvider) :
    lifecycleApplyTransaction (lifecycleRebind s grants replays) tx roots provider =
      (lifecycleApplyTransaction s tx roots provider).map id
        (lifecycleRebind · grants replays) := by
  simp only [lifecycleApplyTransaction]
  split
  · next htype =>
      exact applyGrant_rebind hroom hroom' (by simp [Transaction.granted, htype]) _ _ _
  · exact applyRevoke_rebind hroom hroom' _ _ _
  · exact applyRotate_rebind hroom hroom' _ _ _
  · cases recordDecode tx.record with
    | error status => rfl
    | ok record => exact consumeReplayId_rebind hroom hroom' _ _
  · rfl

end StnChain
