import StnChain.Authority

/-!
# Contracts

The canonical contract object, its address, its state transitions, and the
checks an action passes (`stn_contract.c`).  A decoded contract borrows its
packed participants and terms from the canonical octets; the native participant
list is set only when a contract is built for encoding.
-/

namespace StnChain

/-! ## Protocol values -/

/-- `stn_contract_status` other than `STN_CONTRACT_OK`. -/
inductive ContractStatus
  | argument | truncated | magic | version | type | state | role | participantLimit
  | participantIndex | termsLimit | length | capacity | address | action | transition
  | sequence | authority | signature | duplicateApproval
  deriving DecidableEq, Repr

/-- `stn_contract_type`. -/
inductive ContractType
  | generic | workOffer | contributorAgreement | policy | organizationalDecision
  | serviceAgreement
  deriving DecidableEq, Repr

/-- `stn_contract_state`. -/
inductive ContractState
  | draft | issued | review | approvals | attestation | executed | rejected | revoked | closed
  deriving DecidableEq, Repr

/-- `stn_contract_role`. -/
inductive ContractRole
  | participant | issuer | recipient | approver | attestor
  deriving DecidableEq, Repr

/-- `stn_contract_action`. -/
inductive ContractAction
  | create | amend | approve | reject | execute | revoke | close
  deriving DecidableEq, Repr

/-- The contract type a wire value denotes; `none` fails `contract_type_valid`. -/
def ContractType.ofWire : ℕ → Option ContractType
  | 1 => some .generic
  | 2 => some .workOffer
  | 3 => some .contributorAgreement
  | 4 => some .policy
  | 5 => some .organizationalDecision
  | 6 => some .serviceAgreement
  | _ => none

/-- The contract state a wire value denotes; `none` fails `contract_state_valid`. -/
def ContractState.ofWire : ℕ → Option ContractState
  | 1 => some .draft
  | 2 => some .issued
  | 3 => some .review
  | 4 => some .approvals
  | 5 => some .attestation
  | 6 => some .executed
  | 7 => some .rejected
  | 8 => some .revoked
  | 9 => some .closed
  | _ => none

/-- The role a wire value denotes; `none` fails `contract_role_valid`. -/
def ContractRole.ofWire : ℕ → Option ContractRole
  | 1 => some .participant
  | 2 => some .issuer
  | 3 => some .recipient
  | 4 => some .approver
  | 5 => some .attestor
  | _ => none

/-- The action a wire value denotes; `none` fails `action_valid`. -/
def ContractAction.ofWire : ℕ → Option ContractAction
  | 1 => some .create
  | 2 => some .amend
  | 3 => some .approve
  | 4 => some .reject
  | 5 => some .execute
  | 6 => some .revoke
  | 7 => some .close
  | _ => none

/-- The wire value of an action. -/
def ContractAction.toWire : ContractAction → ℕ
  | .create => 1
  | .amend => 2
  | .approve => 3
  | .reject => 4
  | .execute => 5
  | .revoke => 6
  | .close => 7

/-- `STN_CONTRACT_HEADER_SIZE`. -/
def contractHeaderSize : ℕ := 32

/-- `STN_CONTRACT_PARTICIPANT_SIZE`. -/
def contractParticipantSize : ℕ := 34

/-- `STN_CONTRACT_MAX_PARTICIPANTS`. -/
def contractMaxParticipants : ℕ := 32

/-- `STN_CONTRACT_MAX_TERMS`. -/
def contractMaxTerms : ℕ := 65536

/-- `STN_CONTRACT_MAX_SIZE`. -/
def contractMaxSize : ℕ :=
  contractHeaderSize + contractMaxParticipants * contractParticipantSize + contractMaxTerms

/-- `stn_contract_participant`. -/
structure ContractParticipant where
  identity : Octets 32
  role : ContractRole
  deriving DecidableEq

/-- `stn_contract`. -/
structure Contract where
  version : UInt16
  type : ContractType
  sequence : UInt64
  createdAt : UInt64
  state : ContractState
  participants : Option (List ContractParticipant)
  participantCount : ℕ
  participantBytes : Option Bytes
  terms : Option Bytes
  termsLength : ℕ
  deriving DecidableEq

/-! ## The canonical form -/

/-- `contract_size`. -/
def contractSize (participantCount termsLength : ℕ) : Except ContractStatus ℕ :=
  if participantCount > contractMaxParticipants then .error .participantLimit
  else if termsLength > contractMaxTerms then .error .termsLimit
  else
    let calculated := contractHeaderSize + participantCount * contractParticipantSize + termsLength
    if calculated > contractMaxSize then .error .length else .ok calculated

/-- The packed participant at an index of a span: its identity and its wire role. -/
def packedParticipant (span : Bytes) (index : ℕ) : Octets 32 × ℕ :=
  (octetsAt span (index * contractParticipantSize) 32,
    wireRead span (index * contractParticipantSize + 32) 2)

/-- Every packed participant of a span has a valid role. -/
def packedRolesValid (span : Bytes) (count : ℕ) : Bool :=
  (List.range count).all fun i => (ContractRole.ofWire (packedParticipant span i).2).isSome

/-- `stn_contract_decode`. -/
def contractDecode (input : Bytes) : Except ContractStatus Contract :=
  if input.length < contractHeaderSize then .error .truncated
  else if input.length > contractMaxSize then .error .length
  else if input.take 4 ≠ [0x53, 0x54, 0x43, 0x54] then .error .magic
  else if wireRead input 4 2 ≠ 1 then .error .version
  else
    match ContractType.ofWire (wireRead input 6 2) with
    | none => .error .type
    | some type =>
        match ContractState.ofWire (wireRead input 24 2) with
        | none => .error .state
        | some state =>
            let participantCount := wireRead input 26 2
            let termsLength := wireRead input 28 4
            match contractSize participantCount termsLength with
            | .error status => .error status
            | .ok expectedLength =>
                if input.length ≠ expectedLength then .error .length
                else
                  let packed := BigEndian.field input contractHeaderSize
                    (participantCount * contractParticipantSize)
                  if !packedRolesValid packed participantCount then .error .role
                  else .ok {
                    version := 1, type, state, participantCount, termsLength
                    sequence := UInt64.ofNat (wireRead input 8 8)
                    createdAt := UInt64.ofNat (wireRead input 16 8)
                    participants := none
                    participantBytes := if participantCount = 0 then none else some packed
                    terms := if termsLength = 0 then none else
                      some (BigEndian.field input
                        (contractHeaderSize + participantCount * contractParticipantSize)
                        termsLength) }

/-- `stn_contract_participant_at`. -/
def contractParticipantAt (contract : Contract) (index : ℕ) :
    Except ContractStatus ContractParticipant :=
  if index ≥ contract.participantCount then .error .participantIndex
  else
    match contract.participantBytes with
    | none => .error .argument
    | some span =>
        let entry := packedParticipant span index
        match ContractRole.ofWire entry.2 with
        | none => .error .role
        | some role => .ok ⟨entry.1, role⟩

/-- `stn_contract_address`. -/
def contractAddress [Primitives] (input : Bytes) : Except ContractStatus Address :=
  match contractDecode input with
  | .error status => .error status
  | .ok _ =>
      match addressDerive .contract input with
      | .error _ => .error .address
      | .ok address => .ok address

/-! ## Transitions -/

/-- `stn_contract_transition`; `none` is `STN_CONTRACT_TRANSITION_ERROR`. -/
def contractTransition : ContractState → ContractAction → Option ContractState
  | .draft, .create => some .issued
  | .issued, .amend | .review, .amend => some .review
  | .review, .approve => some .approvals
  | .approvals, .approve => some .attestation
  | .issued, .reject | .review, .reject | .approvals, .reject | .attestation, .reject =>
      some .rejected
  | .attestation, .execute => some .executed
  | .issued, .revoke | .review, .revoke | .approvals, .revoke | .attestation, .revoke
  | .executed, .revoke => some .revoked
  | .executed, .close | .rejected, .close | .revoked, .close => some .closed
  | _, _ => none

/-- `stn_contract_apply_action`. -/
def contractApplyAction (current : Contract) (action : ContractAction)
    (expectedSequence : UInt64) : Except ContractStatus Contract :=
  if current.version ≠ 1 then .error .version
  else if current.sequence = 0xffffffffffffffff ∨ expectedSequence ≠ current.sequence + 1 then
    .error .sequence
  else
    match contractTransition current.state action with
    | none => .error .transition
    | some next => .ok { current with sequence := expectedSequence, state := next }

/-! ## Signature and authority of an action -/

/-- `stn_contract_authority_action`; the token is always well formed. -/
def contractAuthorityAction (action : ContractAction) : Octets 32 :=
  octetsAt ([1, 0x43] ++ wireWrite 2 action.toWire ++ List.replicate 28 0) 0 32

/-- `stn_contract_authority_context`. -/
def contractAuthorityContext [Primitives] (canonical : Bytes) :
    Except ContractStatus (Octets 32) :=
  match contractAddress canonical with
  | .error status => .error status
  | .ok address =>
      let token := octetsAt ([1, 0x43] ++ (octetBytes address.identifier).take 30) 0 32
      if authorityContextValidate token then .ok token else .error .authority

/-- `stn_contract_authority_evaluate`. -/
def contractAuthorityEvaluate [Primitives] (actor : Octets 32) (action : ContractAction)
    (canonical : Bytes) (evidence : Option Bytes) : Except ContractStatus Unit :=
  match contractAuthorityContext canonical with
  | .error status => .error status
  | .ok context =>
      if authorityEvaluate actor (contractAuthorityAction action) context evidence = .authorized
      then .ok () else .error .authority

/-- The octets a contract action's signature covers, before the domain. -/
def contractUnsigned (canonical : Bytes) (actor : Octets 32) (action : ContractAction)
    (sequence : UInt64) : Bytes :=
  canonical ++ octetBytes actor ++ wireWrite 2 action.toWire ++ wireWrite 8 sequence.toNat

/-- `stn_contract_signature_verify`. -/
def contractSignatureVerify [Primitives] (actor : Octets 32) (action : ContractAction)
    (canonical : Bytes) (sequence : UInt64) (signature : Octets 64) :
    Except ContractStatus Unit :=
  match contractDecode canonical with
  | .error status => .error status
  | .ok _ =>
      match identityDerive actor with
      | none => .error .signature
      | some canonicalActor =>
          if identityVerify canonicalActor
              (identityStatement (contractUnsigned canonical canonicalActor action sequence))
              signature = .valid then .ok ()
          else .error .signature

end StnChain
