import StnChain.Chain.Revocations
import StnChain.Rebuild

/-!
# Rejected lifecycle transactions

A lifecycle transaction checks, consumes a replay identifier and then changes the grants,
the revocations or the rotations (`stn_lifecycle_apply_transaction`).  The changes that
follow a consumption repeat checks that were made before it, so they cannot fail any more,
and a rejected transaction leaves the state as it was (`lifecycle_atomic`).
-/

namespace StnChain

section

variable [Primitives]

/-! ## The rotation, write by write -/

/-- The identity a failed rotation takes back, when it made another one current. -/
def restoreRotation (s : LifecycleState) (seeded : Bool) (saved : Octets 32) : LifecycleState :=
  if seeded then { s with rotation := { s.rotation with currentIdentity := saved } } else s

/-- The rotation branch of `stn_lifecycle_apply_transaction`, with the state each failure
leaves behind. -/
def applyRotateAt (s : LifecycleState) (record : Bytes) (roots : List (Octets 32))
    (provider : HashProvider) : LifecycleResult × LifecycleState :=
  let oldId := octetsAt record 1 32
  let saved := s.rotation.currentIdentity
  let seeded := s.rotation.rotations = []
  if record.length ≠ authorityRotationSize then (.invalid, s)
  else if s.rotation.rotations = [] ∧ oldId ∉ s.initialIdentities then (.invalid, s)
  else
    let t := seedRotation s oldId
    if identityRotationValidate record t.rotation roots ≠ .valid then
      (.invalid, restoreRotation t seeded saved)
    else if t.rotation.rotations.length ≥ authorityMaxRotations then (.capacity, t)
    else
      match identityRotationStatement oldId (octetsAt record 33 32) with
      | none => (.invalid, t)
      | some statement =>
          match lifecycleConsume t oldId .identityRotate statement provider with
          | (.ok, t) =>
              let applied := identityRotationApply t.rotation record roots
              (mapStatementResult applied.1, { t with rotation := applied.2 })
          | (result, t) => (result, restoreRotation t seeded saved)

omit [Primitives] in
theorem restoreRotation_seedRotation (s : LifecycleState) (oldId : Octets 32) :
    restoreRotation (seedRotation s oldId) (s.rotation.rotations = [])
      s.rotation.currentIdentity = s := by
  by_cases hfirst : s.rotation.rotations = []
  · simp only [restoreRotation, seedRotation, hfirst, if_true, decide_true]
    rw [← hfirst]
  · simp [restoreRotation, seedRotation, hfirst]

omit [Primitives] in
/-- A consumption that fails changes nothing. -/
theorem consumeReplayId_atomic {s : LifecycleState} {signer nonce : Octets 32}
    (h : (consumeReplayId s signer nonce).1 ≠ .ok) : (consumeReplayId s signer nonce).2 = s := by
  simp only [consumeReplayId] at h ⊢
  split
  · rfl
  next id hid =>
  simp only [hid] at h
  by_cases hreplay : replayStateCheck s.replay id = .replay
  · rw [if_pos hreplay]
  rw [if_neg hreplay] at h ⊢
  split
  · next hconsume =>
      rw [hconsume] at h
      exact absurd rfl h
  · rfl

omit [Primitives] in
theorem lifecycleConsume_atomic {s : LifecycleState} {signer : Octets 32}
    {type : TransactionType} {statement : Bytes} {provider : HashProvider}
    (h : (lifecycleConsume s signer type statement provider).1 ≠ .ok) :
    (lifecycleConsume s signer type statement provider).2 = s := by
  simp only [lifecycleConsume] at h ⊢
  cases hnonce : lifecycleReplayNonce type statement provider with
  | error result => rfl
  | ok nonce =>
      rw [hnonce] at h
      exact consumeReplayId_atomic h

/-- Every failing branch of the rotation restores what it seeded, or has seeded nothing. -/
theorem applyRotateAt_eq (s : LifecycleState) (record : Bytes) (roots : List (Octets 32))
    (provider : HashProvider) :
    applyRotateAt s record roots provider = applyRotate s record roots provider := by
  have hrestore := restoreRotation_seedRotation s (octetsAt record 1 32)
  simp only [applyRotateAt, applyRotate, hrestore]
  split
  · rfl
  split
  · rfl
  split
  · rfl
  split
  · rfl
  cases identityRotationStatement (octetsAt record 1 32) (octetsAt record 33 32) with
  | none => rfl
  | some statement =>
      have hfailed := @lifecycleConsume_atomic (seedRotation s (octetsAt record 1 32))
        (octetsAt record 1 32) .identityRotate statement provider
      dsimp only
      generalize lifecycleConsume (seedRotation s (octetsAt record 1 32)) (octetsAt record 1 32)
        .identityRotate statement provider = outcome at hfailed ⊢
      obtain ⟨result, t⟩ := outcome
      by_cases hok : result = .ok
      · rw [hok]
      · obtain rfl : t = _ := hfailed hok
        cases result with
        | ok => exact absurd rfl hok
        | _ => exact congrArg (Prod.mk _) hrestore

/-! ## Nothing fails after the consumption -/

omit [Primitives] in
theorem mapStatementResult_valid : mapStatementResult .valid = .ok := rfl

theorem applyGrant_atomic {s : LifecycleState} {record : Bytes} {roots : List (Octets 32)}
    {provider : HashProvider} (h : (applyGrant s record roots provider).1 ≠ .ok) :
    (applyGrant s record roots provider).2 = s := by
  simp only [applyGrant] at h ⊢
  split
  · rfl
  next hvalid =>
  rw [if_neg hvalid] at h
  cases hstatement : authorityGrantStatement (octetsAt record 1 32)
      (BigEndian.field record 33 authorityEvidenceSize) with
  | none => rfl
  | some statement =>
      simp only [hstatement] at h
      dsimp only
      by_cases hfull : s.grants.length ≥ s.grantCapacity
      · rw [if_pos hfull]
      rw [if_neg hfull] at h ⊢
      have hfailed := @lifecycleConsume_atomic s (octetsAt record 1 32) .authorityGrant
        statement provider
      generalize lifecycleConsume s (octetsAt record 1 32) .authorityGrant statement provider =
        outcome at h hfailed ⊢
      obtain ⟨result, t⟩ := outcome
      cases result with
      | ok => exact absurd rfl h
      | _ => exact hfailed h

/-- A revocation that is valid and finds room is applied. -/
theorem authorityStateApply_of_valid {state : AuthorityState} {revocation grant : Bytes}
    {roots : List (Octets 32)} {provider : HashProvider}
    (hvalid : (authorityRevocationValidate revocation grant roots provider).1 = .valid)
    (hroom : state.revokedIds.length < authorityMaxRevoked) :
    (authorityStateApply state revocation grant roots provider).1 = .valid := by
  obtain ⟨hresult, -⟩ := authorityRevocationValidate_eq_valid hvalid
  simp only [authorityStateApply, if_neg (Nat.not_lt.mpr (Nat.le_of_lt hroom)), hresult]
  split
  · rfl
  · rw [if_neg (Nat.ne_of_lt hroom)]

theorem applyRevoke_atomic {s : LifecycleState} {record : Bytes} {roots : List (Octets 32)}
    {provider : HashProvider} (h : (applyRevoke s record roots provider).1 ≠ .ok) :
    (applyRevoke s record roots provider).2 = s := by
  simp only [applyRevoke] at h ⊢
  split
  · rfl
  next hlength =>
  rw [if_neg hlength] at h
  cases hgrant : findGrant s (octetsAt record 33 32) provider with
  | none => rfl
  | some grant =>
  simp only [hgrant] at h
  dsimp only
  by_cases hfull : s.authority.revokedIds.length ≥ authorityMaxRevoked
  · rw [if_pos hfull]
  rw [if_neg hfull] at h ⊢
  by_cases hinvalid : (authorityRevocationValidate record grant roots provider).1 ≠ .valid
  · rw [if_pos hinvalid]
  rw [if_neg hinvalid] at h ⊢
  cases hstatement : authorityRevocationStatement (octetsAt record 1 32)
      (octetsAt record 33 32) with
  | none => rfl
  | some statement =>
      simp only [hstatement] at h
      dsimp only
      have hfailed := @lifecycleConsume_atomic s (octetsAt record 1 32) .authorityRevoke
        statement provider
      cases hconsume : lifecycleConsume s (octetsAt record 1 32) .authorityRevoke statement
          provider with
      | mk result t =>
      rw [hconsume] at hfailed
      simp only [hconsume] at h
      cases result with
      | ok =>
          -- The consumption leaves the revocations, so they still have room.
          obtain ⟨id, rfl⟩ := lifecycleConsume_eq_ok hconsume
          have hroom : s.authority.revokedIds.length < authorityMaxRevoked :=
            Nat.lt_of_not_ge hfull
          have happlied := authorityStateApply_of_valid (not_not.mp hinvalid) hroom
          simp only [happlied, mapStatementResult_valid] at h
          exact absurd rfl h
      | _ => exact hfailed h

/-- A valid rotation has a statement. -/
theorem identityRotationStatement_of_valid {rotation : Bytes} {state : IdentityRotationState}
    {roots : List (Octets 32)} (h : identityRotationValidate rotation state roots = .valid) :
    ∃ statement, identityRotationStatement (octetsAt rotation 1 32) (octetsAt rotation 33 32) =
      some statement := by
  simp only [identityRotationValidate] at h
  split at h
  · simp at h
  split at h
  · next oldId newId hold hnew =>
      split at h
      · simp at h
      next hdistinct =>
      simp only [identityRotationStatement, hold, hnew]
      rw [if_neg fun heq => hdistinct (.inl heq)]
      exact ⟨_, rfl⟩
  · simp at h

/-- A rotation that is valid and finds room is applied. -/
theorem identityRotationApply_of_valid {state : IdentityRotationState} {rotation : Bytes}
    {roots : List (Octets 32)} (hvalid : identityRotationValidate rotation state roots = .valid)
    (hroom : state.rotations.length < authorityMaxRotations) :
    (identityRotationApply state rotation roots).1 = .valid := by
  simp only [identityRotationApply, hvalid]
  split
  · rfl
  · rw [if_neg (Nat.ne_of_lt hroom)]

theorem applyRotate_atomic {s : LifecycleState} {record : Bytes} {roots : List (Octets 32)}
    {provider : HashProvider} (h : (applyRotate s record roots provider).1 ≠ .ok) :
    (applyRotate s record roots provider).2 = s := by
  simp only [applyRotate] at h ⊢
  split
  · rfl
  next hlength =>
  rw [if_neg hlength] at h
  split
  · rfl
  next hinitial =>
  rw [if_neg hinitial] at h
  split
  · rfl
  next hinvalid =>
  rw [if_neg hinvalid] at h
  have hvalid := not_not.mp hinvalid
  split
  · next hfull =>
      -- Only a state without rotations is seeded, and that one has room.
      have hsome : s.rotation.rotations ≠ [] := by
        intro hnone
        simp [seedRotation, hnone, authorityMaxRotations] at hfull
      rw [seedRotation, if_neg hsome]
  next hfull =>
  rw [if_neg hfull] at h
  obtain ⟨statement, hstatement⟩ := identityRotationStatement_of_valid hvalid
  simp only [hstatement] at h ⊢
  cases hconsume : lifecycleConsume (seedRotation s (octetsAt record 1 32)) (octetsAt record 1 32)
      .identityRotate statement provider with
  | mk result t =>
  simp only [hconsume] at h
  cases result with
  | ok =>
      obtain ⟨id, rfl⟩ := lifecycleConsume_eq_ok hconsume
      have happlied := identityRotationApply_of_valid hvalid (Nat.lt_of_not_ge hfull)
      simp only [happlied, mapStatementResult_valid] at h
      exact absurd rfl h
  | _ => rfl

theorem lifecycleApplyTransaction_atomic {s : LifecycleState} {tx : Transaction}
    {roots : List (Octets 32)} {provider : HashProvider}
    (h : (lifecycleApplyTransaction s tx roots provider).1 ≠ .ok) :
    (lifecycleApplyTransaction s tx roots provider).2 = s := by
  simp only [lifecycleApplyTransaction] at h ⊢
  cases htype : tx.type with
  | authorityGrant =>
      rw [htype] at h
      exact applyGrant_atomic h
  | authorityRevoke =>
      rw [htype] at h
      exact applyRevoke_atomic h
  | identityRotate =>
      rw [htype] at h
      exact applyRotate_atomic h
  | publication =>
      simp only [htype] at h
      dsimp only
      cases hdecode : recordDecode tx.record with
      | error status => rfl
      | ok record =>
          simp only [hdecode] at h
          exact consumeReplayId_atomic h
  | _ => rfl

/-! ## Blocks -/

/-- A rejected transaction of any type leaves the lifecycle state as it was, and a block
that is rejected leaves it as its transactions before the rejected one have left it. -/
theorem lifecycle_atomic (s : LifecycleState) (roots : List (Octets 32))
    (provider : HashProvider) :
    (∀ tx : Transaction, (lifecycleApplyTransaction s tx roots provider).1 ≠ .ok →
      (lifecycleApplyTransaction s tx roots provider).2 = s) ∧
    (∀ record : Bytes,
      applyRotateAt s record roots provider = applyRotate s record roots provider) ∧
    (∀ transactions : List Bytes,
      (lifecycleApplyTransactions roots provider s transactions).1 ≠ .ok →
      ∃ past t rest s', transactions = past ++ t :: rest ∧
        lifecycleApplyTransactions roots provider s past = (.ok, s') ∧
        (∀ tx, transactionDecode t = .ok tx →
          (lifecycleApplyTransaction s' tx roots provider).1 ≠ .ok) ∧
        (lifecycleApplyTransactions roots provider s transactions).2 = s') := by
  refine ⟨fun tx => lifecycleApplyTransaction_atomic,
    fun record => applyRotateAt_eq s record roots provider, ?_⟩
  intro transactions h
  induction transactions generalizing s with
  | nil => exact absurd rfl h
  | cons t rest ih =>
      simp only [lifecycleApplyTransactions] at h ⊢
      cases hdecode : transactionDecode t with
      | error status =>
          refine ⟨[], t, rest, s, rfl, rfl, ?_, rfl⟩
          intro tx htx
          rw [hdecode] at htx
          cases htx
      | ok tx =>
          simp only [hdecode] at h
          dsimp only
          have hrejected := @lifecycleApplyTransaction_atomic _ s tx roots provider
          cases happly : lifecycleApplyTransaction s tx roots provider with
          | mk result t' =>
          rw [happly] at hrejected
          by_cases hok : result = .ok
          · subst hok
            simp only [happly] at h
            obtain ⟨past, u, rest', s', rfl, hpast, hrefused, hleft⟩ := ih t' h
            refine ⟨t :: past, u, rest', s', rfl, ?_, hrefused, hleft⟩
            simp only [lifecycleApplyTransactions, hdecode, happly]
            exact hpast
          · have hsame := hrejected hok
            refine ⟨[], t, rest, s, rfl, rfl, ?_, ?_⟩
            · intro tx' htx'
              obtain rfl := Except.ok.inj (hdecode.symm.trans htx')
              rw [happly]
              exact hok
            · cases result with
              | ok => exact absurd rfl hok
              | _ => exact hsame

end

section Sample

attribute [local instance] Sample.primitives

/-- A lifecycle state whose initial identities do not include its current one. -/
def twoInitial : LifecycleState :=
  lifecycleSetInitialIdentities (lifecycleInitialize 4 4 9) [5]

/-- A rotation of one of them without a signature. -/
def unsignedRotation : Transaction where
  version := 1
  type := .identityRotate
  record := [1] ++ octetBytes (5 : Octets 32) ++ octetBytes (7 : Octets 32) ++
    List.replicate 64 0

/-- The rejected rotation has made its identity the current one, and takes it back. -/
theorem twoInitial_keeps_current :
    (lifecycleApplyTransaction twoInitial unsignedRotation [] Sample.context.hashProvider).2 =
        twoInitial ∧
      (seedRotation twoInitial 5).rotation ≠ twoInitial.rotation := by
  refine ⟨(lifecycle_atomic twoInitial [] Sample.context.hashProvider).1 unsignedRotation ?_, ?_⟩
  · decide +kernel
  · decide +kernel

end Sample

end StnChain
