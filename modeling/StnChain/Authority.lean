import StnChain.Identity

/-!
# Scoped authority

Grants issued by genesis roots, their revocation, and the rotation of
identities (`stn_authority.c`).  Action and context are opaque 32-octet tokens
compared exactly; a grant carries evidence of one subject, action and context.
-/

namespace StnChain

/-! ## Tokens and evidence -/

/-- `stn_authority_result`. -/
inductive AuthorityResult
  | authorized | unauthorized | malformed
  deriving DecidableEq, Repr

/-- `STN_AUTHORITY_EVIDENCE_SIZE`. -/
def authorityEvidenceSize : ℕ := 97

/-- `STN_AUTHORITY_GRANT_SIZE`. -/
def authorityGrantSize : ℕ := 194

/-- `STN_AUTHORITY_REVOCATION_SIZE`. -/
def authorityRevocationSize : ℕ := 129

/-- `STN_AUTHORITY_ROTATION_SIZE`. -/
def authorityRotationSize : ℕ := 129

/-- `token_valid`: the version octet, then at least one nonzero octet. -/
def tokenValid (token : Octets 32) : Bool :=
  byteAt (octetBytes token) 0 = 1 && token.toNat % 2 ^ 248 ≠ 0

/-- `stn_authority_action_validate`. -/
def authorityActionValidate (action : Octets 32) : Bool :=
  tokenValid action

/-- `stn_authority_context_validate`. -/
def authorityContextValidate (context : Octets 32) : Bool :=
  tokenValid context

/-- `stn_authority_evidence_validate` succeeds. -/
def authorityEvidenceValidate (evidence : Bytes) : Bool :=
  evidence.length = authorityEvidenceSize && byteAt evidence 0 = 1 &&
    (identityDerive (octetsAt evidence 1 32)).isSome &&
    authorityActionValidate (octetsAt evidence 33 32) &&
    authorityContextValidate (octetsAt evidence 65 32)

/-- `stn_authority_evaluate`; the absent evidence is `none`. -/
def authorityEvaluate (identity action context : Octets 32) (evidence : Option Bytes) :
    AuthorityResult :=
  match identityDerive identity with
  | none => .malformed
  | some canonical =>
      if !authorityActionValidate action || !authorityContextValidate context then .malformed
      else
        match evidence with
        | none => .unauthorized
        | some evidence =>
            if evidence.length ≠ authorityEvidenceSize ∨ byteAt evidence 0 ≠ 1 then .malformed
            else if octetsAt evidence 1 32 ≠ canonical ∨ octetsAt evidence 33 32 ≠ action ∨
                octetsAt evidence 65 32 ≠ context then .unauthorized
            else .authorized

/-! ## Roots and grants -/

/-- `stn_authority_grant_result`, `stn_authority_revocation_result` and
`stn_identity_rotation_result`, which have the same three values. -/
inductive StatementResult
  | valid | invalid | malformed
  deriving DecidableEq, Repr

/-- The keys of a set are canonical and increase strictly. -/
def rootsAscending : List (Octets 32) → Bool
  | [] => true
  | [key] => (identityDerive key).isSome
  | key :: next :: rest =>
      (identityDerive key).isSome && key < next && rootsAscending (next :: rest)

/-- `stn_authority_root_set_validate` succeeds. -/
def authorityRootSetValidate (roots : List (Octets 32)) : Bool :=
  roots.length ≤ 16 && rootsAscending roots

/-- `stn_authority_grant_statement`; `none` is the malformed result. -/
def authorityGrantStatement (issuer : Octets 32) (evidence : Bytes) : Option Bytes :=
  match identityDerive issuer with
  | none => none
  | some id =>
      if !authorityEvidenceValidate evidence then none
      else some (cString "STN-CHAIN:AUTHORITY:GRANT:1" ++ [1] ++ octetBytes id ++ evidence)

/-- `stn_authority_grant_validate`; the evidence it copies out is the 97 octets at 33. -/
def authorityGrantValidate [Primitives] (grant : Bytes) (roots : List (Octets 32)) :
    StatementResult :=
  let issuer := octetsAt grant 1 32
  let evidence := BigEndian.field grant 33 authorityEvidenceSize
  if grant.length ≠ authorityGrantSize ∨ byteAt grant 0 ≠ 1 then .malformed
  else if !authorityRootSetValidate roots then .malformed
  else
    match authorityGrantStatement issuer evidence with
    | none => .malformed
    | some statement =>
        if issuer ∈ roots ∧
            Primitives.ed25519Verify statement issuer (octetsAt grant 130 64) then .valid
        else .invalid

/-- `stn_authority_grant_id`. -/
def authorityGrantId (grant : Bytes) (provider : HashProvider) :
    Except DataStatus (Octets 32) :=
  if grant.length ≠ authorityGrantSize then .error .argument
  else if byteAt grant 0 ≠ 1 ∨ identityDerive (octetsAt grant 1 32) = none ∨
      !authorityEvidenceValidate (BigEndian.field grant 33 authorityEvidenceSize) then
    .error .content
  else
    match provider.hash with
    | none => .error .unresolved
    | some hash =>
        match hash [] grant with
        | .ok id => .ok id
        | .error .unresolved => .error .unresolved
        | .error .argument => .error .argument
        | .error _ => .error .providerError

/-! ## Revocations -/

/-- `STN_AUTHORITY_MAX_REVOKED`. -/
def authorityMaxRevoked : ℕ := 256

/-- `stn_authority_state`: the identifiers of revoked grants, ascending. -/
structure AuthorityState where
  revokedIds : List (Octets 32)
  deriving DecidableEq

/-- `stn_authority_state_is_revoked`. -/
def authorityStateIsRevoked (state : AuthorityState) (id : Octets 32) : Bool :=
  id ∈ state.revokedIds.take authorityMaxRevoked

/-- `stn_authority_revocation_statement`; `none` is the malformed result. -/
def authorityRevocationStatement (issuer id : Octets 32) : Option Bytes :=
  match identityDerive issuer with
  | none => none
  | some canonical =>
      if id = 0 then none
      else some (cString "STN-CHAIN:AUTHORITY:REVOKE:1" ++ [1] ++ octetBytes canonical ++
        octetBytes id)

/-- The signature verdict of a statement as a statement result. -/
def statementVerdict : IdentityResult → StatementResult
  | .valid => .valid
  | .malformed => .malformed
  | .invalid => .invalid

/-- `stn_authority_revocation_validate`, with the identifier it copies out. -/
def authorityRevocationValidate [Primitives] (revocation grant : Bytes)
    (roots : List (Octets 32)) (provider : HashProvider) :
    StatementResult × Option (Octets 32) :=
  if revocation.length ≠ authorityRevocationSize ∨ byteAt revocation 0 ≠ 1 then
    (.malformed, none)
  else
    match authorityGrantValidate grant roots with
    | .malformed => (.malformed, none)
    | .invalid => (.invalid, none)
    | .valid =>
        match authorityGrantId grant provider with
        | .error _ => (.invalid, none)
        | .ok id =>
            let issuer := octetsAt revocation 1 32
            if octetsAt revocation 33 32 = 0 ∨ identityDerive issuer = none then
              (.malformed, some id)
            else if issuer ≠ octetsAt grant 1 32 then (.invalid, some id)
            else if octetsAt revocation 33 32 ≠ id then (.invalid, some id)
            else
              match authorityRevocationStatement issuer id with
              | none => (.invalid, some id)
              | some statement =>
                  (statementVerdict
                    (identityVerify issuer statement (octetsAt revocation 65 64)), some id)

/-- The ascending insertion of `stn_authority_state_apply`, which moves up every
identifier larger than the new one, scanning from the end. -/
def insertRevoked (id : Octets 32) (ids : List (Octets 32)) : List (Octets 32) :=
  let larger := (ids.reverse.takeWhile fun x => id < x).reverse
  ids.take (ids.length - larger.length) ++ id :: larger

/-- `stn_authority_state_apply`. -/
def authorityStateApply [Primitives] (state : AuthorityState) (revocation grant : Bytes)
    (roots : List (Octets 32)) (provider : HashProvider) : StatementResult × AuthorityState :=
  if state.revokedIds.length > authorityMaxRevoked then (.malformed, state)
  else
    match authorityRevocationValidate revocation grant roots provider with
    | (.valid, some id) =>
        if id ∈ state.revokedIds then (.valid, state)
        else if state.revokedIds.length = authorityMaxRevoked then (.invalid, state)
        else (.valid, ⟨insertRevoked id state.revokedIds⟩)
    | (result, _) => (result, state)

/-! ## Rotations -/

/-- `STN_AUTHORITY_MAX_ROTATIONS`. -/
def authorityMaxRotations : ℕ := 256

/-- One accepted rotation. -/
structure IdentityRotation where
  oldIdentity : Octets 32
  newIdentity : Octets 32
  deriving DecidableEq

/-- `stn_identity_rotation_state`. -/
structure IdentityRotationState where
  initialIdentity : Octets 32
  currentIdentity : Octets 32
  rotations : List IdentityRotation
  deriving DecidableEq

/-- `stn_identity_rotation_initialize`. -/
def identityRotationInitialize (initial : Octets 32) : IdentityRotationState :=
  match identityDerive initial with
  | some identity => ⟨identity, identity, []⟩
  | none => ⟨0, 0, []⟩

/-- `stn_identity_rotation_statement`; `none` is the malformed result. -/
def identityRotationStatement (oldId newId : Octets 32) : Option Bytes :=
  match identityDerive oldId, identityDerive newId with
  | some a, some b =>
      if a = b then none
      else some (cString "STN-CHAIN:IDENTITY:ROTATE:1" ++ [1] ++ octetBytes a ++ octetBytes b)
  | _, _ => none

/-- The scan over accepted rotations of `stn_identity_rotation_validate`;
`none` means that it ran to the end. -/
def rotationScan (oldId newId : Octets 32) : List IdentityRotation → Option StatementResult
  | [] => none
  | r :: rest =>
      if r.oldIdentity = oldId then
        some (if r.newIdentity = newId then .valid else .invalid)
      else if r.oldIdentity = newId then some .invalid
      else rotationScan oldId newId rest

/-- `stn_identity_rotation_validate`. -/
def identityRotationValidate [Primitives] (rotation : Bytes) (state : IdentityRotationState)
    (roots : List (Octets 32)) : StatementResult :=
  if rotation.length ≠ authorityRotationSize ∨ byteAt rotation 0 ≠ 1 ∨
      state.rotations.length > authorityMaxRotations ∨ !authorityRootSetValidate roots then
    .malformed
  else
    match identityDerive (octetsAt rotation 1 32), identityDerive (octetsAt rotation 33 32) with
    | some oldId, some newId =>
        if oldId = newId ∨ oldId ∈ roots ∨ newId ∈ roots then .invalid
        else
          match rotationScan oldId newId state.rotations with
          | some result => result
          | none =>
              if oldId ≠ state.currentIdentity then .invalid
              else
                match identityRotationStatement oldId newId with
                | none => .malformed
                | some statement =>
                    statementVerdict (identityVerify oldId statement (octetsAt rotation 65 64))
    | _, _ => .malformed

/-- `stn_identity_rotation_apply`. -/
def identityRotationApply [Primitives] (state : IdentityRotationState) (rotation : Bytes)
    (roots : List (Octets 32)) : StatementResult × IdentityRotationState :=
  match identityRotationValidate rotation state roots with
  | .valid =>
      let oldId := octetsAt rotation 1 32
      let newId := octetsAt rotation 33 32
      if state.currentIdentity = newId then (.valid, state)
      else if state.rotations.length = authorityMaxRotations then (.invalid, state)
      else (.valid, { state with
        rotations := state.rotations ++ [⟨oldId, newId⟩]
        currentIdentity := newId })
  | result => (result, state)

end StnChain
