import StnChain.Chain.State

/-!
# Contract actions on the chain

How a contract transaction is authorized by the lifecycle component and applied
to the registered contracts (`contract_authorized` and
`contract_apply_transaction` of `stn_chain.c`).  A creation carries no authority
evidence, and without evidence no action is authorized, so every creation is
rejected: `createAdmission_iff` compares this with the documented admission rule.
-/

namespace StnChain

section

variable [Primitives]

/-- The grant loop of `contract_authorized`. -/
def contractGrantScan (lifecycle : LifecycleState) (evidence : Option Bytes)
    (provider : HashProvider) : List Bytes → Except DataStatus Unit
  | [] => .error .content
  | grant :: rest =>
      if some (BigEndian.field grant 33 authorityEvidenceSize) ≠ evidence then
        contractGrantScan lifecycle evidence provider rest
      else
        match authorityGrantId grant provider with
        | .error _ => .error .providerError
        | .ok grantId =>
            if !authorityStateIsRevoked lifecycle.authority grantId then .ok ()
            else contractGrantScan lifecycle evidence provider rest

/-- `contract_authorized`. -/
def contractAuthorized (lifecycle : LifecycleState) (action : ContractTransaction)
    (canonicalDraft : Bytes) (provider : HashProvider) : Except DataStatus Unit :=
  if contractSignatureVerify action.actor action.action action.canonicalContract
      action.sequence action.signature ≠ .ok () then .error .content
  else if contractAuthorityEvaluate action.actor action.action canonicalDraft
      action.authorityEvidence ≠ .ok () then .error .content
  else contractGrantScan lifecycle action.authorityEvidence provider lifecycle.grants

/-- The status a contract failure becomes. -/
def contractFailure : ContractStatus → DataStatus
  | .capacity => .capacity
  | _ => .content

/-- The store with another current contract in one of its entries. -/
def setCurrent (state : ContractStateStore) (index : ℕ) (entry : ContractStateEntry)
    (next : Contract) : ContractStateStore :=
  { state with entries := state.entries.set index { entry with current := keepSpans entry next } }

/-- The `CREATE` branch of `contract_apply_transaction`. -/
def contractApplyCreate (snapshot : ContractSnapshot) (lifecycle : LifecycleState)
    (action : ContractTransaction) (provider : HashProvider) :
    Except DataStatus ContractSnapshot :=
  match draftView action.canonicalContract with
  | .error _ => .error .content
  | .ok _ =>
      match contractAuthorized lifecycle action action.canonicalContract provider with
      | .error status => .error status
      | .ok () =>
          match contractSnapshotRegister snapshot action.canonicalContract with
          | .error status => .error (contractFailure status)
          | .ok (snapshot, index) =>
              match snapshot.state.entries[index]? with
              | none => .error .argument
              | some entry =>
                  match contractApplyAction entry.current action.action action.sequence with
                  | .error _ => .error .content
                  | .ok next => .ok ⟨setCurrent snapshot.state index entry next⟩

/-- The entry whose draft a canonical contract descends from, and its index. -/
def lineageEntry (state : ContractStateStore) (canonical : Bytes) :
    Option (ℕ × ContractStateEntry) :=
  match state.entries.findIdx? fun entry =>
      contractLineageValidate entry.canonicalDraft canonical = .ok () with
  | none => none
  | some index => state.entries[index]?.map fun entry => (index, entry)

/-- `contract_apply_transaction`. -/
def contractApplyTransaction (snapshot : ContractSnapshot) (lifecycle : LifecycleState)
    (tx : Transaction) (provider : HashProvider) : Except DataStatus ContractSnapshot :=
  match contractTransactionDecode tx.record with
  | .error _ => .error .content
  | .ok action =>
      if action.action = .create then contractApplyCreate snapshot lifecycle action provider
      else
        match lineageEntry snapshot.state action.canonicalContract with
        | none => .error .content
        | some (index, entry) =>
            match contractDecode action.canonicalContract with
            | .error _ => .error .content
            | .ok current =>
                if current.sequence ≠ entry.current.sequence ∨
                    current.state ≠ entry.current.state then .error .content
                else
                  match contractAuthorized lifecycle action entry.canonicalDraft provider with
                  | .error status => .error status
                  | .ok () =>
                      if action.action = .approve then
                        match contractStateApplyVote snapshot.state index action.canonicalContract
                            action.sequence action.actor with
                        | .error status => .error (contractFailure status)
                        | .ok state => .ok ⟨state⟩
                      else
                        match contractApplyAction current action.action action.sequence with
                        | .error _ => .error .content
                        | .ok next => .ok ⟨setCurrent snapshot.state index entry next⟩

/-! ## Creation -/

/-- The documented form of a creation: action sequence zero, no authority
evidence, signed by an issuer of a fresh draft that has approvers and fits. -/
structure DocumentedCreate (snapshot : ContractSnapshot) (action : ContractTransaction) :
    Prop where
  sequence : action.sequence = 0
  evidence : action.authorityEvidence = none
  signed : contractSignatureVerify action.actor action.action action.canonicalContract
    action.sequence action.signature = .ok ()
  draft : ∃ draft participants, draftView action.canonicalContract = .ok draft ∧
    contractParticipants draft = .ok participants ∧
    (∃ p ∈ participants, p.role = .issuer ∧
      Primitives.sha256 [] (octetBytes action.actor) = .ok p.identity) ∧
    (∃ n, countApprovers [] participants = some (n + 1)) ∧
    draft.participantCount ≤ snapshot.state.voteCapacity - snapshot.state.voteCount
  fresh : ∃ address, contractAddress action.canonicalContract = .ok address ∧
    ∀ entry ∈ snapshot.state.entries, entry.contractId ≠ address.identifier
  room : snapshot.state.entries.length < snapshot.state.entryCapacity

/-- A snapshot gained exactly one contract, issued at sequence 1 from a draft. -/
def IssuedFrom (snapshot snapshot' : ContractSnapshot) (canonicalDraft : Bytes) : Prop :=
  ∃ entry, snapshot'.state.entries.map ContractStateEntry.canonicalDraft =
      snapshot.state.entries.map ContractStateEntry.canonicalDraft ++ [canonicalDraft] ∧
    snapshot'.state.entries.getLast? = some entry ∧
    entry.current.state = .issued ∧ entry.current.sequence = 1

/-- The admission rule for creations: the documented form is accepted and issues
its contract, every other creation is rejected. -/
def CreateAdmission (snapshot : ContractSnapshot) (lifecycle : LifecycleState)
    (tx : Transaction) (provider : HashProvider) : Prop :=
  ∀ action, contractTransactionDecode tx.record = .ok action → action.action = .create →
    (DocumentedCreate snapshot action →
      ∃ snapshot', contractApplyTransaction snapshot lifecycle tx provider = .ok snapshot' ∧
        IssuedFrom snapshot snapshot' action.canonicalContract) ∧
    (¬ DocumentedCreate snapshot action →
      ∃ status, contractApplyTransaction snapshot lifecycle tx provider = .error status)

/-- A decoded creation carries no authority evidence. -/
theorem evidence_of_create {input : Bytes} {action : ContractTransaction}
    (h : contractTransactionDecode input = .ok action) (hcreate : action.action = .create) :
    action.authorityEvidence = none := by
  simp only [contractTransactionDecode] at h
  split at h
  · simp at h
  split at h
  · simp at h
  split at h
  · simp at h
  split at h
  · simp at h
  split at h
  · simp at h
  next hauthority =>
  split at h
  · simp at h
  split at h
  · simp at h
  split at h
  · simp at h
  split at h
  · simp at h
  obtain rfl := Except.ok.inj h
  obtain rfl := hcreate
  have hlength : wireRead input 16 4 = 0 := by simpa [authorityLengthValid] using hauthority
  simp [hlength]

omit [Primitives] in
/-- Without evidence no identity is authorized. -/
theorem authorityEvaluate_none (identity action context : Octets 32) :
    authorityEvaluate identity action context none ≠ .authorized := by
  simp only [authorityEvaluate]
  split
  · simp
  · split <;> simp

/-- An action without evidence is never authorized on the chain. -/
theorem contractAuthorized_none (lifecycle : LifecycleState) {action : ContractTransaction}
    (canonicalDraft : Bytes) (provider : HashProvider)
    (h : action.authorityEvidence = none) :
    contractAuthorized lifecycle action canonicalDraft provider = .error .content := by
  have hevaluate : contractAuthorityEvaluate action.actor action.action canonicalDraft none ≠
      .ok () := by
    simp only [contractAuthorityEvaluate]
    split
    · simp
    · simp [authorityEvaluate_none]
  rw [contractAuthorized, h, if_pos hevaluate, ite_self]

/-- Every creation is rejected. -/
theorem contractApplyTransaction_create {snapshot : ContractSnapshot}
    {lifecycle : LifecycleState} {tx : Transaction} {provider : HashProvider}
    {action : ContractTransaction} (h : contractTransactionDecode tx.record = .ok action)
    (hcreate : action.action = .create) :
    contractApplyTransaction snapshot lifecycle tx provider = .error .content := by
  have hnone := evidence_of_create h hcreate
  simp only [contractApplyTransaction, h, if_pos hcreate, contractApplyCreate]
  split
  · rfl
  · rw [contractAuthorized_none lifecycle _ provider hnone]

/-- Without registered contracts every contract transaction is rejected. -/
theorem contractApplyTransaction_empty {snapshot : ContractSnapshot}
    (hempty : snapshot.state.entries = []) (lifecycle : LifecycleState) (tx : Transaction)
    (provider : HashProvider) :
    contractApplyTransaction snapshot lifecycle tx provider = .error .content := by
  cases hdecode : contractTransactionDecode tx.record with
  | error status => simp [contractApplyTransaction, hdecode]
  | ok action =>
      by_cases hcreate : action.action = .create
      · exact contractApplyTransaction_create hdecode hcreate
      · simp [contractApplyTransaction, hdecode, hcreate, lineageEntry, hempty]

/-- The admission rule holds of exactly the transactions that are no creation in
the documented form. -/
theorem createAdmission_iff (snapshot : ContractSnapshot) (lifecycle : LifecycleState)
    (tx : Transaction) (provider : HashProvider) :
    CreateAdmission snapshot lifecycle tx provider ↔
      ¬ ∃ action, contractTransactionDecode tx.record = .ok action ∧
        action.action = .create ∧ DocumentedCreate snapshot action := by
  constructor
  · rintro hadmission ⟨action, hdecode, hcreate, hdocumented⟩
    obtain ⟨snapshot', haccepted, -⟩ := (hadmission action hdecode hcreate).1 hdocumented
    rw [contractApplyTransaction_create hdecode hcreate] at haccepted
    simp at haccepted
  · intro hnone action hdecode hcreate
    refine ⟨fun hdocumented => absurd ⟨action, hdecode, hcreate, hdocumented⟩ hnone, ?_⟩
    exact fun _ => ⟨.content, contractApplyTransaction_create hdecode hcreate⟩

end

section Sample

namespace Sample

/-- The public key of an issuer. -/
def issuerKey : Octets 32 :=
  0xc466f87a921485560bce189d86d4f5736e474f4678ade87cb421f4c4ebd990cd

/-- The identifier of the issuer's key, its SHA-256 digest. -/
def issuerId : Octets 32 :=
  0x46d4556dc8bcd59108b1b5f263e66ff0b8841377c42957f70ec3c67dffbca373

/-- A fresh draft with the issuer and one approver. -/
def draft : Bytes :=
  [0x53, 0x54, 0x43, 0x54] ++ wireWrite 2 1 ++ wireWrite 2 1 ++ wireWrite 8 0 ++
    wireWrite 8 1000 ++ wireWrite 2 1 ++ wireWrite 2 2 ++ wireWrite 4 0 ++
    octetBytes issuerId ++ wireWrite 2 2 ++ List.replicate 32 0x0b ++ wireWrite 2 4

/-- The identifier of the draft's address, its SHA-256 digest. -/
def draftId : Octets 32 :=
  0xe96c30f1dd89ec7fc121612b32f9813b37abe8afed3c7a5aeab2edde6159d42e

/-- The issuer's signature of the creation. -/
def createSignature : Octets 64 :=
  BitVec.ofNat 512 (0x5b03dc06171d4e2814ff134385ae5d929331c878b1e73c1a8e71c01a56a04a76 * 2 ^ 256 +
    0x8c5a600822ecbc1ab995459d6999fc3f9675e10b0716fc0ff714c17337af1600)

/-- SHA-256 and Ed25519 as far as the creation asks for them. -/
@[reducible] def createPrimitives : Primitives where
  sha256 _ bytes := .ok (if bytes = draft then draftId else issuerId)
  ed25519Verify statement key signature :=
    decide (statement = identityStatement (contractUnsigned draft issuerKey .create 0) ∧
      key = issuerKey ∧ signature = createSignature)

/-- The creation in its documented form. -/
def createTransaction : Transaction where
  version := 1
  type := .contractAction
  record := wireWrite 2 1 ++ wireWrite 2 1 ++ wireWrite 8 0 ++ wireWrite 4 draft.length ++
    wireWrite 4 0 ++ octetBytes issuerKey ++ octetBytes createSignature ++ draft

/-- What the creation decodes to. -/
def createAction : ContractTransaction where
  version := 1
  action := .create
  sequence := 0
  actor := issuerKey
  signature := createSignature
  canonicalContract := draft
  authorityEvidence := none

/-- What the draft decodes to. -/
def draftContract : Contract where
  version := 1
  type := .generic
  sequence := 0
  createdAt := 1000
  state := .draft
  participants := none
  participantCount := 2
  participantBytes := some (draft.drop 32)
  terms := none
  termsLength := 0

/-- The draft's participants. -/
def draftParticipants : List ContractParticipant :=
  [⟨issuerId, .issuer⟩,
    ⟨0x0b0b0b0b0b0b0b0b0b0b0b0b0b0b0b0b0b0b0b0b0b0b0b0b0b0b0b0b0b0b0b0b, .approver⟩]

end Sample

attribute [local instance] Sample.createPrimitives

deriving instance DecidableEq for ContractTransaction

open Sample

theorem sample_create_decodes :
    contractTransactionDecode createTransaction.record = .ok createAction := by
  decide +kernel

theorem sample_create_documented : DocumentedCreate contractSnapshotCreate createAction where
  sequence := rfl
  evidence := rfl
  signed := by decide +kernel
  draft := by
    refine ⟨draftContract, draftParticipants, by decide +kernel, by decide +kernel, ?_,
      ⟨0, by decide +kernel⟩, by decide +kernel⟩
    exact ⟨⟨issuerId, .issuer⟩, by simp [draftParticipants], rfl, by decide +kernel⟩
  fresh := by
    refine ⟨⟨.contract, draftId⟩, by decide +kernel, fun entry hentry => ?_⟩
    simp [contractSnapshotCreate, contractStateInitialize] at hentry
  room := by decide +kernel

/-- In no chain state without contracts is the documented creation admitted. -/
theorem sample_create_rejected :
    ¬ ∃ lifecycle provider,
      CreateAdmission contractSnapshotCreate lifecycle createTransaction provider := by
  rintro ⟨lifecycle, provider, hadmission⟩
  obtain ⟨snapshot, haccepted, -⟩ :=
    (hadmission createAction sample_create_decodes rfl).1 sample_create_documented
  rw [contractApplyTransaction_create sample_create_decodes rfl] at haccepted
  simp at haccepted

end Sample

end StnChain
