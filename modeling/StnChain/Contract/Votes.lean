import StnChain.Contract.Codec

/-!
# Contract votes and contract transactions

The approval set of a draft and the votes cast against it
(`stn_contract_consensus.c`), and the transaction record that carries an action
(`stn_contract_transaction.c`).
-/

namespace StnChain

variable [Primitives]

/-! ## Approvers and votes -/

/-- The 64 octets of a vote key: the contract, then the voter. -/
structure VoteKey where
  contractId : Octets 32
  actor : Octets 32
  deriving DecidableEq

/-- `stn_contract_vote_state`. -/
structure ContractVoteState where
  contractId : Octets 32
  accepted : List VoteKey
  acceptedCapacity : ℕ
  eligibleCount : ℕ
  requiredCount : ℕ

/-- `draft_view`. -/
def draftView (bytes : Bytes) : Except ContractStatus Contract :=
  match contractDecode bytes with
  | .error status => .error status
  | .ok draft => if draft.state ≠ .draft ∨ draft.sequence ≠ 0 then .error .state else .ok draft

/-- `stn_contract_vote_eligible`. -/
def contractVoteEligible (canonicalDraft : Bytes) (actor : Octets 32) :
    Except ContractStatus Unit :=
  match draftView canonicalDraft with
  | .error status => .error status
  | .ok draft =>
      match identityDerive actor with
      | none => .error .authority
      | some canonicalActor =>
          let rec scan : List ℕ → Except ContractStatus Unit
            | [] => .error .authority
            | i :: rest =>
                match contractParticipantAt draft i with
                | .error status => .error status
                | .ok p =>
                    if p.role = .approver ∧ p.identity = canonicalActor then .ok ()
                    else scan rest
          scan (List.range draft.participantCount)

/-- The participant list a decoded contract's span packs. -/
def contractParticipants (contract : Contract) : Except ContractStatus (List ContractParticipant) :=
  (List.range contract.participantCount).mapM (contractParticipantAt contract)

/-- The approver count of a participant list read front to back: `none` when an
approver's identity is met a second time. -/
def countApprovers : List ContractParticipant → List ContractParticipant → Option ℕ
  | _, [] => some 0
  | before, p :: rest =>
      if p.role ≠ .approver then countApprovers (before ++ [p]) rest
      else if before.any (fun q => q.role = .approver && q.identity = p.identity) then none
      else (countApprovers (before ++ [p]) rest).map (· + 1)

/-- `stn_contract_vote_state_initialize`. -/
def contractVoteStateInitialize (canonicalDraft : Bytes) (acceptedCapacity : ℕ) :
    Except ContractStatus ContractVoteState :=
  match draftView canonicalDraft with
  | .error status => .error status
  | .ok draft =>
      match contractAddress canonicalDraft with
      | .error status => .error status
      | .ok address =>
          match contractParticipants draft with
          | .error status => .error status
          | .ok participants =>
              match countApprovers [] participants with
              | none => .error .duplicateApproval
              | some 0 => .error .authority
              | some eligible => .ok {
                  contractId := address.identifier
                  accepted := []
                  acceptedCapacity
                  eligibleCount := eligible
                  requiredCount := eligible / 2 + 1 }

/-- `stn_contract_vote_accept`: the vote set, and whether the majority is reached. -/
def contractVoteAccept (votes : ContractVoteState) (canonicalDraft : Bytes)
    (actor : Octets 32) : Except ContractStatus (ContractVoteState × Bool) :=
  if votes.accepted.length > votes.acceptedCapacity ∨ votes.eligibleCount = 0 ∨
      votes.requiredCount ≠ votes.eligibleCount / 2 + 1 then .error .argument
  else
    match draftView canonicalDraft with
    | .error status => .error status
    | .ok _ =>
        match contractAddress canonicalDraft with
        | .error status => .error status
        | .ok address =>
            if address.identifier ≠ votes.contractId then .error .address
            else
              match contractVoteEligible canonicalDraft actor with
              | .error status => .error status
              | .ok () =>
                  match identityDerive actor with
                  | none => .error .authority
                  | some canonicalActor =>
                      let key : VoteKey := ⟨votes.contractId, canonicalActor⟩
                      if key ∈ votes.accepted then .error .duplicateApproval
                      else if votes.accepted.length = votes.acceptedCapacity then
                        .error .capacity
                      else .ok ({ votes with accepted := votes.accepted ++ [key] },
                        votes.accepted.length + 1 ≥ votes.requiredCount)

/-- `stn_contract_vote_apply`. -/
def contractVoteApply (current : Contract) (expectedSequence : UInt64) (canonicalDraft : Bytes)
    (actor : Octets 32) (votes : ContractVoteState) :
    Except ContractStatus (ContractVoteState × Contract) :=
  if current.state ≠ .review ∧ current.state ≠ .approvals then .error .transition
  else if current.sequence = 0xffffffffffffffff ∨ expectedSequence ≠ current.sequence + 1 then
    .error .sequence
  else
    match contractVoteAccept votes canonicalDraft actor with
    | .error status => .error status
    | .ok (votes, reached) => .ok (votes, { current with
        sequence := expectedSequence
        state := if reached then .attestation else .approvals })

/-! ## Contract transactions -/

/-- `stn_contract_transaction`. -/
structure ContractTransaction where
  version : UInt16
  action : ContractAction
  sequence : UInt64
  actor : Octets 32
  signature : Octets 64
  canonicalContract : Bytes
  authorityEvidence : Option Bytes

/-- `STN_CONTRACT_TX_HEADER_SIZE`. -/
def contractTxHeaderSize : ℕ := 116

/-- `STN_CONTRACT_TX_MAX_SIZE`. -/
def contractTxMaxSize : ℕ := contractTxHeaderSize + contractMaxSize + authorityEvidenceSize

/-- `authority_length_valid`. -/
def authorityLengthValid (action : ContractAction) (length : ℕ) : Bool :=
  if action = .create then length = 0 else length = authorityEvidenceSize

/-- `create_admission_valid`. -/
def createAdmissionValid (action : ContractAction) (canonical : Bytes) :
    Except ContractStatus Unit :=
  if action ≠ .create then .ok ()
  else
    match contractVoteStateInitialize canonical 0 with
    | .error status => .error status
    | .ok _ => .ok ()

/-- `stn_contract_transaction_decode`. -/
def contractTransactionDecode (input : Bytes) : Except ContractStatus ContractTransaction :=
  if input.length < contractTxHeaderSize ∨ input.length > contractTxMaxSize then .error .length
  else if wireRead input 0 2 ≠ 1 then .error .version
  else
    match ContractAction.ofWire (wireRead input 2 2) with
    | none => .error .action
    | some action =>
        let contractLength := wireRead input 12 4
        let authorityLength := wireRead input 16 4
        if contractLength < contractHeaderSize ∨ contractLength > contractMaxSize then
          .error .length
        else if !authorityLengthValid action authorityLength then .error .authority
        else if contractTxHeaderSize + contractLength + authorityLength ≠ input.length then
          .error .length
        else
          let canonical := BigEndian.field input contractTxHeaderSize contractLength
          let evidence := BigEndian.field input (contractTxHeaderSize + contractLength)
            authorityLength
          match contractDecode canonical with
          | .error _ => .error .length
          | .ok _ =>
              match createAdmissionValid action canonical with
              | .error status => .error status
              | .ok () =>
                  if action ≠ .create ∧ !authorityEvidenceValidate evidence then
                    .error .authority
                  else .ok {
                    version := 1, action
                    sequence := UInt64.ofNat (wireRead input 4 8)
                    actor := octetsAt input 20 32
                    signature := octetsAt input 52 64
                    canonicalContract := canonical
                    authorityEvidence := if authorityLength = 0 then none else some evidence }

end StnChain
