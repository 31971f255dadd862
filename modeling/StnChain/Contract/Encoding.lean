import StnChain.Contract.Entries

/-!
# Encoding of contracts and contract transactions

The encoders of `stn_contract.c` and `stn_contract_transaction.c`.  The encoder takes the
participants in native form, the decoder borrows them packed; `contractParticipants`
materialises what was borrowed.  Up to that, encoders and decoders invert each other.
-/

namespace StnChain

/-! ## Wire values -/

/-- The wire value of a contract type. -/
def ContractType.toWire : ContractType → ℕ
  | .generic => 1
  | .workOffer => 2
  | .contributorAgreement => 3
  | .policy => 4
  | .organizationalDecision => 5
  | .serviceAgreement => 6

/-- The wire value of a contract state. -/
def ContractState.toWire : ContractState → ℕ
  | .draft => 1
  | .issued => 2
  | .review => 3
  | .approvals => 4
  | .attestation => 5
  | .executed => 6
  | .rejected => 7
  | .revoked => 8
  | .closed => 9

/-- The wire value of a role. -/
def ContractRole.toWire : ContractRole → ℕ
  | .participant => 1
  | .issuer => 2
  | .recipient => 3
  | .approver => 4
  | .attestor => 5

theorem ContractType.ofWire_toWire (type : ContractType) : ofWire type.toWire = some type := by
  cases type <;> rfl

theorem ContractType.toWire_ofWire {n : ℕ} {type : ContractType} (h : ofWire n = some type) :
    type.toWire = n := by
  unfold ContractType.ofWire at h
  split at h <;> cases h <;> rfl

theorem ContractType.toWire_lt (type : ContractType) : type.toWire < 256 ^ 2 := by
  cases type <;> decide

theorem ContractState.ofWire_toWire (state : ContractState) :
    ofWire state.toWire = some state := by
  cases state <;> rfl

theorem ContractState.toWire_ofWire {n : ℕ} {state : ContractState} (h : ofWire n = some state) :
    state.toWire = n := by
  unfold ContractState.ofWire at h
  split at h <;> cases h <;> rfl

theorem ContractState.toWire_lt (state : ContractState) : state.toWire < 256 ^ 2 := by
  cases state <;> decide

theorem ContractRole.ofWire_toWire (role : ContractRole) : ofWire role.toWire = some role := by
  cases role <;> rfl

theorem ContractRole.toWire_ofWire {n : ℕ} {role : ContractRole} (h : ofWire n = some role) :
    role.toWire = n := by
  unfold ContractRole.ofWire at h
  split at h <;> cases h <;> rfl

theorem ContractRole.toWire_lt (role : ContractRole) : role.toWire < 256 ^ 2 := by
  cases role <;> decide

theorem ContractAction.ofWire_toWire (action : ContractAction) :
    ofWire action.toWire = some action := by
  cases action <;> rfl

theorem ContractAction.toWire_lt (action : ContractAction) : action.toWire < 256 ^ 2 := by
  cases action <;> decide

theorem ContractAction.toWire_ofWire {n : ℕ} {action : ContractAction}
    (h : ofWire n = some action) : action.toWire = n := by
  unfold ContractAction.ofWire at h
  split at h <;> cases h <;> rfl

/-! ## Encoders -/

/-- The packed form of a participant. -/
def packedBytes (p : ContractParticipant) : Bytes :=
  octetBytes p.identity ++ wireWrite 2 p.role.toWire

/-- The participants and the terms as far as a contract counts them. -/
structure ContractContent where
  participants : List ContractParticipant
  terms : Bytes
  deriving DecidableEq

/-- The counted content of a contract in native form. -/
def Contract.content (contract : Contract) : ContractContent where
  participants := (contract.participants.getD []).take contract.participantCount
  terms := (contract.terms.getD []).take contract.termsLength

/-- The 32 octets in front of the participants. -/
def contractHeadBytes (contract : Contract) : Bytes :=
  [0x53, 0x54, 0x43, 0x54] ++ wireWrite 2 contract.version.toNat ++
    wireWrite 2 contract.type.toWire ++ wireWrite 8 contract.sequence.toNat ++
    wireWrite 8 contract.createdAt.toNat ++ wireWrite 2 contract.state.toWire ++
    wireWrite 2 contract.participantCount ++ wireWrite 4 contract.termsLength

/-- The octets of a contract. -/
def contractBytes (contract : Contract) : Bytes :=
  contractHeadBytes contract ++
    (contract.content.participants.flatMap packedBytes ++ contract.content.terms)

/-- `stn_contract_encode`. -/
def contractEncode (contract : Contract) (capacity : ℕ) : Except ContractStatus Bytes :=
  if contract.version ≠ 1 then .error .version
  else if contract.participantCount ≠ 0 ∧ contract.participants = none then .error .argument
  else if contract.termsLength ≠ 0 ∧ contract.terms = none then .error .argument
  else
    match contractSize contract.participantCount contract.termsLength with
    | .error status => .error status
    | .ok total => if capacity < total then .error .capacity else .ok (contractBytes contract)

/-- The octets of a contract transaction. -/
def contractTransactionBytes (tx : ContractTransaction) : Bytes :=
  wireWrite 2 tx.version.toNat ++ wireWrite 2 tx.action.toWire ++ wireWrite 8 tx.sequence.toNat ++
    wireWrite 4 tx.canonicalContract.length ++ wireWrite 4 (tx.authorityEvidence.getD []).length ++
    octetBytes tx.actor ++ octetBytes tx.signature ++ tx.canonicalContract ++
    tx.authorityEvidence.getD []

/-- `stn_contract_transaction_encode`. -/
def contractTransactionEncode [Primitives] (tx : ContractTransaction) (capacity : ℕ) :
    Except ContractStatus Bytes :=
  let evidence := tx.authorityEvidence.getD []
  if tx.version ≠ 1 then .error .version
  else if tx.canonicalContract.length < contractHeaderSize ∨
      tx.canonicalContract.length > contractMaxSize then .error .length
  else if !authorityLengthValid tx.action evidence.length then .error .authority
  else
    match contractDecode tx.canonicalContract with
    | .error _ => .error .length
    | .ok _ =>
        match createAdmissionValid tx.action tx.canonicalContract with
        | .error status => .error status
        | .ok () =>
            if tx.action ≠ .create ∧ !authorityEvidenceValidate evidence then .error .authority
            else if capacity < contractTxHeaderSize + tx.canonicalContract.length +
                evidence.length then .error .capacity
            else .ok (contractTransactionBytes tx)

/-! ## Packed participants -/

/-- A field at the end of a prefix prolongs it. -/
theorem field_prefix_append (p : Bytes) (m n : ℕ) :
    BigEndian.field p 0 m ++ BigEndian.field p m n = BigEndian.field p 0 (m + n) := by
  have hfield := BigEndian.field_append_field p 0 m n
  rwa [Nat.zero_add] at hfield

theorem mapM_eq_ok_of_forall₂ {α β ε : Type} {f : α → Except ε β} {as : List α} {bs : List β}
    (h : List.Forall₂ (fun a b => f a = .ok b) as bs) : as.mapM f = .ok bs := by
  induction h with
  | nil => rfl
  | cons hab _ ih =>
      rw [List.mapM_cons, hab, ih]
      rfl

@[simp]
theorem length_packedBytes (p : ContractParticipant) :
    (packedBytes p).length = contractParticipantSize := by
  simp [packedBytes, contractParticipantSize]

@[simp]
theorem length_flatMap_packedBytes (ps : List ContractParticipant) :
    (ps.flatMap packedBytes).length = ps.length * contractParticipantSize := by
  induction ps with
  | nil => rfl
  | cons p ps ih => rw [List.flatMap_cons, List.length_append, ih, length_packedBytes,
      List.length_cons, Nat.succ_mul, Nat.add_comm]

/-- A packed participant is read back. -/
theorem packedParticipant_flatMap {ps : List ContractParticipant} {i : ℕ} (h : i < ps.length) :
    packedParticipant (ps.flatMap packedBytes) i = (ps[i].identity, ps[i].role.toWire) := by
  induction ps generalizing i with
  | nil => simp at h
  | cons p ps ih =>
      cases i with
      | zero =>
          have hrole : wireRead (wireWrite 2 p.role.toWire ++ ps.flatMap packedBytes) 0 2 =
              p.role.toWire := by
            rw [wireRead_append_left (by simp)]
            exact wireRead_wireWrite p.role.toWire_lt
          simp only [packedParticipant, List.flatMap_cons, packedBytes, List.append_assoc,
            Nat.zero_mul, Nat.zero_add, List.getElem_cons_zero]
          rw [octetsAt_append_left (by simp), octetsAt_octetBytes,
            wireRead_append_right (by simp)]
          simpa using hrole
      | succ i =>
          have hoff : (i + 1) * contractParticipantSize =
              (packedBytes p).length + i * contractParticipantSize := by
            rw [length_packedBytes, Nat.succ_mul, Nat.add_comm]
          have hrest := ih (Nat.lt_of_succ_lt_succ h)
          simp only [packedParticipant] at hrest ⊢
          rw [List.flatMap_cons, hoff, octetsAt_append_right (Nat.le_add_right _ _),
            wireRead_append_right (by omega), Nat.add_sub_cancel_left, Nat.add_assoc,
            Nat.add_sub_cancel_left, List.getElem_cons_succ]
          exact hrest

theorem packedRolesValid_flatMap (ps : List ContractParticipant) :
    packedRolesValid (ps.flatMap packedBytes) ps.length = true := by
  rw [packedRolesValid, List.all_eq_true]
  intro i hi
  rw [packedParticipant_flatMap (List.mem_range.mp hi), ContractRole.ofWire_toWire]
  rfl

/-- A span of valid packed participants is the packed form of some participants. -/
theorem exists_flatMap_packedBytes {span : Bytes} {count : ℕ}
    (hlength : span.length = count * contractParticipantSize)
    (hroles : packedRolesValid span count = true) :
    ∃ ps : List ContractParticipant, ps.length = count ∧ ps.flatMap packedBytes = span := by
  induction count generalizing span with
  | zero =>
      refine ⟨[], rfl, ?_⟩
      rw [Nat.zero_mul] at hlength
      exact (List.length_eq_zero_iff.mp hlength).symm
  | succ count ih =>
      simp only [packedRolesValid, List.all_eq_true, List.mem_range] at hroles
      rw [Nat.succ_mul] at hlength
      have hhead : 34 ≤ span.length := by
        simp only [contractParticipantSize] at hlength
        omega
      obtain ⟨role, hrole⟩ := Option.isSome_iff_exists.mp (hroles 0 (Nat.succ_pos count))
      have hdrop : (span.drop contractParticipantSize).length =
          count * contractParticipantSize := by
        rw [List.length_drop]
        omega
      have hrest : packedRolesValid (span.drop contractParticipantSize) count = true := by
        rw [packedRolesValid, List.all_eq_true]
        intro i hi
        have hnext := hroles (i + 1) (Nat.succ_lt_succ (List.mem_range.mp hi))
        simpa only [packedParticipant, wireRead, BigEndian.field, List.drop_drop, Nat.succ_mul,
          Nat.add_assoc, Nat.add_comm contractParticipantSize] using hnext
      obtain ⟨ps, hcount, hspan⟩ := ih hdrop hrest
      refine ⟨⟨octetsAt span 0 32, role⟩ :: ps, by rw [List.length_cons, hcount], ?_⟩
      have hwire : role.toWire = wireRead span 32 2 := by
        have hread := ContractRole.toWire_ofWire hrole
        simpa [packedParticipant] using hread
      rw [List.flatMap_cons, hspan, packedBytes, hwire, octetBytes_octetsAt (by omega),
        wireWrite_wireRead (by omega), BigEndian.field_append_field]
      exact List.take_append_drop 34 span

/-! ## Contracts -/

section Contracts

variable {contract decoded : Contract} {input : Bytes} {capacity total : ℕ}

/-- The native participants and the terms are as long as their counts say. -/
structure Contract.Backed (contract : Contract) : Prop where
  participants : contract.participantCount ≤ (contract.participants.getD []).length
  terms : contract.termsLength ≤ (contract.terms.getD []).length

/-- Two contracts that agree in every field and in their counted content. -/
structure Contract.SameValue (a b : Contract) : Prop where
  version : a.version = b.version
  type : a.type = b.type
  sequence : a.sequence = b.sequence
  createdAt : a.createdAt = b.createdAt
  state : a.state = b.state
  participantCount : a.participantCount = b.participantCount
  termsLength : a.termsLength = b.termsLength
  content : a.content = b.content

/-- What decoding borrows of a contract's octets. -/
def Contract.borrowed (contract : Contract) : Contract :=
  { contract with
    participants := none
    participantBytes := if contract.participantCount = 0 then none
      else some (contract.content.participants.flatMap packedBytes)
    terms := if contract.termsLength = 0 then none else some contract.content.terms }

theorem Contract.Backed.length_participants (h : contract.Backed) :
    contract.content.participants.length = contract.participantCount := by
  rw [Contract.content, List.length_take, Nat.min_eq_left h.participants]

theorem Contract.Backed.length_terms (h : contract.Backed) :
    contract.content.terms.length = contract.termsLength := by
  rw [Contract.content, List.length_take, Nat.min_eq_left h.terms]

theorem contractSize_bounds (h : contractSize contract.participantCount contract.termsLength =
    .ok total) :
    contract.participantCount ≤ contractMaxParticipants ∧
      contract.termsLength ≤ contractMaxTerms ∧ total ≤ contractMaxSize ∧
      total = contractHeaderSize + contract.participantCount * contractParticipantSize +
        contract.termsLength := by
  simp only [contractSize] at h
  split at h
  · cases h
  split at h
  · cases h
  split at h
  · cases h
  obtain rfl := Except.ok.inj h
  omega

@[simp]
theorem length_contractHeadBytes (contract : Contract) :
    (contractHeadBytes contract).length = contractHeaderSize := by
  simp [contractHeadBytes, contractHeaderSize]

theorem length_contractBytes (h : contract.Backed) :
    (contractBytes contract).length = contractHeaderSize +
      contract.participantCount * contractParticipantSize + contract.termsLength := by
  rw [contractBytes, List.length_append, List.length_append, length_contractHeadBytes,
    length_flatMap_packedBytes, h.length_participants, h.length_terms, Nat.add_assoc]

/-- A contract is read back from its octets. -/
theorem contractDecode_bytes (hbacked : contract.Backed) (hversion : contract.version = 1)
    (hsize : contractSize contract.participantCount contract.termsLength = .ok total) :
    contractDecode (contractBytes contract) = .ok contract.borrowed := by
  obtain ⟨hcount, hterms, hmax, htotal⟩ := contractSize_bounds hsize
  have hlength := length_contractBytes hbacked
  have hlong : ¬(contractBytes contract).length < contractHeaderSize := by
    omega
  have hfits : ¬(contractBytes contract).length > contractMaxSize := by
    omega
  have hmagic : (contractBytes contract).take 4 = [0x53, 0x54, 0x43, 0x54] := by
    simp [contractBytes, contractHeadBytes]
  have hhead (off n : ℕ) (h : off + n ≤ 32) :
      wireRead (contractBytes contract) off n = wireRead (contractHeadBytes contract) off n :=
    wireRead_append_left (by rwa [length_contractHeadBytes])
  have hread : wireRead (contractHeadBytes contract) 4 2 = 1 ∧
      wireRead (contractHeadBytes contract) 6 2 = contract.type.toWire ∧
      UInt64.ofNat (wireRead (contractHeadBytes contract) 8 8) = contract.sequence ∧
      UInt64.ofNat (wireRead (contractHeadBytes contract) 16 8) = contract.createdAt ∧
      wireRead (contractHeadBytes contract) 24 2 = contract.state.toWire ∧
      wireRead (contractHeadBytes contract) 26 2 = contract.participantCount ∧
      wireRead (contractHeadBytes contract) 28 4 = contract.termsLength := by
    simp only [contractMaxParticipants] at hcount
    simp only [contractMaxTerms] at hterms
    simp (disch := simp) only [contractHeadBytes, List.append_assoc, wireRead_append_right,
      wireRead_append_left, ofNat_wireRead_wireWrite_eight, length_wireWrite, List.length_cons,
      List.length_nil, Nat.reduceAdd, Nat.reduceSub, hversion]
    refine ⟨wireRead_wireWrite (by decide), wireRead_wireWrite contract.type.toWire_lt, trivial,
      trivial, wireRead_wireWrite contract.state.toWire_lt, wireRead_wireWrite (by omega),
      wireRead_wireWrite (by omega)⟩
  obtain ⟨hv, htype, hsequence, hcreated, hstate, hparticipants, htermsLength⟩ := hread
  have hpacked : BigEndian.field (contractBytes contract) contractHeaderSize
      (contract.participantCount * contractParticipantSize) =
        contract.content.participants.flatMap packedBytes := by
    have hspan := length_flatMap_packedBytes contract.content.participants
    rw [hbacked.length_participants] at hspan
    rw [contractBytes, BigEndian.field_append_right (k := 0) (by simp),
      BigEndian.field_append_left (by omega), BigEndian.field_zero_length hspan]
  have hrest : BigEndian.field (contractBytes contract)
      (contractHeaderSize + contract.participantCount * contractParticipantSize)
      contract.termsLength = contract.content.terms := by
    have hspan := length_flatMap_packedBytes contract.content.participants
    rw [hbacked.length_participants] at hspan
    rw [contractBytes, BigEndian.field_append_right (by rw [length_contractHeadBytes]),
      BigEndian.field_append_right (k := 0) (by rw [hspan, Nat.add_zero]),
      BigEndian.field_zero_length hbacked.length_terms]
  have hroles := packedRolesValid_flatMap contract.content.participants
  rw [hbacked.length_participants] at hroles
  have hexpected : ¬(contractBytes contract).length ≠ total := by
    omega
  simp only [contractDecode, if_neg hlong, if_neg hfits, hmagic, hhead 4 2 (by decide),
    hhead 6 2 (by decide), hhead 8 8 (by decide), hhead 16 8 (by decide), hhead 24 2 (by decide),
    hhead 26 2 (by decide), hhead 28 4 (by decide), hv, htype, hsequence, hcreated, hstate,
    hparticipants, htermsLength, ContractType.ofWire_toWire, ContractState.ofWire_toWire, hsize,
    if_neg hexpected, hpacked, hroles, hrest, ne_eq, not_true_eq_false, if_false, Bool.not_true,
    Bool.false_eq_true, Contract.borrowed, hversion]

/-- The borrowed participants of a contract are materialised one by one. -/
theorem contractParticipants_packed {ps : List ContractParticipant}
    (hcount : contract.participantCount = ps.length)
    (hpacked : contract.participantBytes = if contract.participantCount = 0 then none
      else some (ps.flatMap packedBytes)) :
    contractParticipants contract = .ok ps := by
  have hat (i : ℕ) (h : i < ps.length) : contractParticipantAt contract i = .ok ps[i] := by
    have hsome : contract.participantBytes = some (ps.flatMap packedBytes) := by
      rw [hpacked, if_neg (by omega)]
    simp only [contractParticipantAt, if_neg (show ¬ i ≥ contract.participantCount by omega),
      hsome, packedParticipant_flatMap h, ContractRole.ofWire_toWire]
  rw [contractParticipants, hcount]
  apply mapM_eq_ok_of_forall₂
  rw [List.forall₂_iff_get]
  refine ⟨by simp, ?_⟩
  intro i hi hps
  simpa using hat i hps

/-- The decoder borrows what materialising and encoding write again. -/
theorem contractDecode_eq_bytes (h : contractDecode input = .ok decoded) :
    ∃ ps, contractParticipants decoded = .ok ps ∧ decoded.version = 1 ∧
      contractSize decoded.participantCount decoded.termsLength = .ok input.length ∧
      (decoded.termsLength ≠ 0 → decoded.terms ≠ none) ∧
      contractBytes { decoded with participants := some ps } = input := by
  simp only [contractDecode] at h
  split at h
  · cases h
  next hlong =>
  split at h
  · cases h
  split at h
  · cases h
  next hmagic =>
  split at h
  · cases h
  next hversion =>
  split at h
  · cases h
  next type htype =>
  split at h
  · cases h
  next state hstate =>
  split at h
  · cases h
  next total hsize =>
  split at h
  · cases h
  next hlength =>
  split at h
  · cases h
  next hroles =>
  obtain rfl := Except.ok.inj h
  rw [not_not] at hmagic hversion hlength
  have htotal := contractSize_eq_ok hsize
  rw [← hlength] at htotal
  have hheader : contractHeaderSize = 32 := rfl
  have hpacked : (BigEndian.field input contractHeaderSize
      (wireRead input 26 2 * contractParticipantSize)).length =
        wireRead input 26 2 * contractParticipantSize :=
    BigEndian.length_field (by omega)
  obtain ⟨ps, hcount, hspan⟩ := exists_flatMap_packedBytes hpacked (by simpa using hroles)
  have hcontent : (if wireRead input 28 4 = 0 then none else
      some (BigEndian.field input (contractHeaderSize + wireRead input 26 2 *
        contractParticipantSize) (wireRead input 28 4)) : Option Bytes).getD [] =
      BigEndian.field input (contractHeaderSize + wireRead input 26 2 * contractParticipantSize)
        (wireRead input 28 4) := by
    split
    · next hzero => rw [hzero, field_zero, Option.getD_none]
    · rw [Option.getD_some]
  refine ⟨ps, contractParticipants_packed hcount.symm (by rw [hspan]), rfl, ?_, ?_, ?_⟩
  · rw [hlength]
    exact hsize
  · intro hterms
    simp [hterms]
  · have hhead : ([0x53, 0x54, 0x43, 0x54] : Bytes) = BigEndian.field input 0 4 := by
      rw [← hmagic]
      simp [BigEndian.field]
    have hone : wireWrite 2 (1 : UInt16).toNat = wireWrite 2 (wireRead input 4 2) := by
      rw [hversion]
      rfl
    have htake : ps.take (wireRead input 26 2) = ps := by
      rw [← hcount, List.take_length]
    have hterms : (BigEndian.field input (contractHeaderSize + wireRead input 26 2 *
        contractParticipantSize) (wireRead input 28 4)).take (wireRead input 28 4) =
        BigEndian.field input (contractHeaderSize + wireRead input 26 2 *
          contractParticipantSize) (wireRead input 28 4) := by
      rw [BigEndian.field, List.take_take, Nat.min_self]
    simp only [contractBytes, contractHeadBytes, Contract.content, hcontent, Option.getD_some,
      htake, hspan, hterms, hone, ContractType.toWire_ofWire htype,
      ContractState.toWire_ofWire hstate, toNat_ofNat_wireRead_eight]
    rw [wireWrite_wireRead (by omega), wireWrite_wireRead (by omega),
      wireWrite_wireRead (by omega), wireWrite_wireRead (by omega),
      wireWrite_wireRead (by omega), wireWrite_wireRead (by omega),
      wireWrite_wireRead (by omega), hhead, ← List.append_assoc]
    repeat rw [BigEndian.field_append_field]
    simp only [contractHeaderSize, Nat.reduceAdd]
    rw [field_prefix_append, field_prefix_append]
    exact BigEndian.field_zero_length (by omega)

/-- Encoding writes the octets that decode to what it borrowed. -/
theorem contractEncode_eq_ok (hbacked : contract.Backed)
    (h : contractEncode contract capacity = .ok input) :
    contractDecode input = .ok contract.borrowed := by
  simp only [contractEncode] at h
  split at h
  · cases h
  next hversion =>
  split at h
  · cases h
  split at h
  · cases h
  split at h
  · cases h
  next hsize =>
  split at h
  · cases h
  obtain rfl := Except.ok.inj h
  exact contractDecode_bytes hbacked (not_not.mp hversion) hsize

/-- What is encoded is read back by value once its participants are materialised. -/
theorem contractEncode_round_trip (hbacked : contract.Backed)
    (h : contractEncode contract capacity = .ok input) :
    ∃ decoded ps, contractDecode input = .ok decoded ∧ contractParticipants decoded = .ok ps ∧
      { decoded with participants := some ps }.SameValue contract := by
  refine ⟨contract.borrowed, contract.content.participants, contractEncode_eq_ok hbacked h,
    contractParticipants_packed hbacked.length_participants.symm rfl, ?_⟩
  constructor
  all_goals try rfl
  have hparticipants := hbacked.length_participants
  have hterms := hbacked.length_terms
  have htake : contract.content.participants.take contract.participantCount =
      contract.content.participants := by
    rw [← hparticipants, List.take_length]
  have hspan : (if contract.termsLength = 0 then none else
      some contract.content.terms : Option Bytes).getD [] = contract.content.terms := by
    split
    · next hzero =>
        rw [hzero] at hterms
        rw [Option.getD_none, List.length_eq_zero_iff.mp hterms]
    · rw [Option.getD_some]
  have hrest : contract.content.terms.take contract.termsLength = contract.content.terms := by
    rw [← hterms, List.take_length]
  simp only [Contract.content, Contract.borrowed] at htake hspan hrest ⊢
  rw [Option.getD_some, htake, hspan, hrest]

/-- What is decoded is encoded again once its participants are materialised. -/
theorem contractDecode_round_trip (h : contractDecode input = .ok decoded)
    (hcapacity : input.length ≤ capacity) :
    ∃ ps, contractParticipants decoded = .ok ps ∧
      contractEncode { decoded with participants := some ps } capacity = .ok input := by
  obtain ⟨ps, hps, hversion, hsize, hterms, hbytes⟩ := contractDecode_eq_bytes h
  refine ⟨ps, hps, ?_⟩
  have hspan : ¬(decoded.termsLength ≠ 0 ∧ decoded.terms = none) := fun hnone =>
    hterms hnone.1 hnone.2
  simp only [contractEncode, if_neg (not_not.mpr hversion), if_neg hspan, hsize,
    if_neg (Nat.not_lt.mpr hcapacity), hbytes]
  simp

end Contracts

/-! ## Contract transactions -/

section Transactions

variable [Primitives] {tx : ContractTransaction} {input : Bytes} {capacity : ℕ}

/-- A transaction without the span of an evidence of no octets. -/
def ContractTransaction.borrowed (tx : ContractTransaction) : ContractTransaction :=
  { tx with authorityEvidence := tx.authorityEvidence.filter (· ≠ []) }

omit [Primitives] in
theorem length_contractTransactionBytes (tx : ContractTransaction) :
    (contractTransactionBytes tx).length = contractTxHeaderSize + tx.canonicalContract.length +
      (tx.authorityEvidence.getD []).length := by
  simp only [contractTransactionBytes, List.length_append, length_wireWrite, length_octetBytes,
    contractTxHeaderSize]

/-- What both directions of the codec check of a transaction. -/
structure ContractTransaction.Checked (tx : ContractTransaction) : Prop where
  version : tx.version = 1
  lengths : contractHeaderSize ≤ tx.canonicalContract.length ∧
    tx.canonicalContract.length ≤ contractMaxSize
  evidenceLength : authorityLengthValid tx.action (tx.authorityEvidence.getD []).length = true
  contract : ∃ contract, contractDecode tx.canonicalContract = .ok contract
  admission : createAdmissionValid tx.action tx.canonicalContract = .ok ()
  evidence : tx.action ≠ .create → authorityEvidenceValidate (tx.authorityEvidence.getD []) = true

theorem ContractTransaction.Checked.evidence_le (h : tx.Checked) :
    (tx.authorityEvidence.getD []).length ≤ authorityEvidenceSize := by
  have hlength := h.evidenceLength
  simp only [authorityLengthValid] at hlength
  split at hlength
  · rw [of_decide_eq_true hlength]
    exact Nat.zero_le _
  · rw [of_decide_eq_true hlength]

theorem contractTransactionEncode_eq_ok_iff :
    contractTransactionEncode tx capacity = .ok input ↔
      tx.Checked ∧ input = contractTransactionBytes tx ∧ input.length ≤ capacity := by
  constructor
  · intro h
    simp only [contractTransactionEncode] at h
    split at h
    · cases h
    next hversion =>
    split at h
    · cases h
    next hlengths =>
    split at h
    · cases h
    next hevidenceLength =>
    split at h
    · cases h
    next contract hcontract =>
    split at h
    · cases h
    next hadmission =>
    split at h
    · cases h
    next hevidence =>
    split at h
    · cases h
    next hcapacity =>
    obtain rfl := Except.ok.inj h
    refine ⟨⟨not_not.mp hversion, by omega, by simpa using hevidenceLength,
      ⟨contract, hcontract⟩, hadmission, ?_⟩, rfl, ?_⟩
    · intro haction
      by_contra hrefused
      exact hevidence ⟨haction, by simpa using hrefused⟩
    · rw [length_contractTransactionBytes]
      omega
  · rintro ⟨hchecked, rfl, hcapacity⟩
    obtain ⟨contract, hcontract⟩ := hchecked.contract
    rw [length_contractTransactionBytes] at hcapacity
    have hevidence : ¬(tx.action ≠ .create ∧
        (!authorityEvidenceValidate (tx.authorityEvidence.getD [])) = true) := by
      rintro ⟨haction, hrefused⟩
      simp [hchecked.evidence haction] at hrefused
    have hlengths := hchecked.lengths
    simp only [contractTransactionEncode, if_neg (not_not.mpr hchecked.version),
      if_neg (show ¬(tx.canonicalContract.length < contractHeaderSize ∨
        tx.canonicalContract.length > contractMaxSize) by omega), hchecked.evidenceLength,
      Bool.not_true, Bool.false_eq_true, if_false, hcontract, hchecked.admission,
      if_neg hevidence, if_neg (Nat.not_lt.mpr hcapacity)]

/-- A transaction is read back from its octets. -/
theorem contractTransactionDecode_bytes (h : tx.Checked) :
    contractTransactionDecode (contractTransactionBytes tx) = .ok tx.borrowed := by
  obtain ⟨hmin, hmax⟩ := h.lengths
  have hevidenceMax := h.evidence_le
  obtain ⟨contract, hcontract⟩ := h.contract
  have hlength := length_contractTransactionBytes tx
  have hsize : ¬((contractTransactionBytes tx).length < contractTxHeaderSize ∨
      (contractTransactionBytes tx).length > contractTxMaxSize) := by
    simp only [contractTxMaxSize]
    omega
  have hbounds : tx.canonicalContract.length < 256 ^ 4 ∧
      (tx.authorityEvidence.getD []).length < 256 ^ 4 := by
    have hmaxValue : contractMaxSize < 256 ^ 4 := by decide
    have hevidenceValue : authorityEvidenceSize < 256 ^ 4 := by decide
    omega
  have hversion : wireRead (contractTransactionBytes tx) 0 2 = 1 := by
    simp (disch := simp) only [contractTransactionBytes, List.append_assoc, wireRead_append_left,
      h.version]
    exact wireRead_wireWrite (by decide)
  have haction : wireRead (contractTransactionBytes tx) 2 2 = tx.action.toWire := by
    simp (disch := simp) only [contractTransactionBytes, List.append_assoc, wireRead_append_left,
      wireRead_append_right, length_wireWrite, Nat.reduceSub]
    exact wireRead_wireWrite (ContractAction.toWire_lt tx.action)
  have hcontractLength : wireRead (contractTransactionBytes tx) 12 4 =
      tx.canonicalContract.length := by
    simp (disch := simp) only [contractTransactionBytes, List.append_assoc, wireRead_append_left,
      wireRead_append_right, length_wireWrite, Nat.reduceSub]
    exact wireRead_wireWrite hbounds.1
  have hevidenceLength : wireRead (contractTransactionBytes tx) 16 4 =
      (tx.authorityEvidence.getD []).length := by
    simp (disch := simp) only [contractTransactionBytes, List.append_assoc, wireRead_append_left,
      wireRead_append_right, length_wireWrite, Nat.reduceSub]
    exact wireRead_wireWrite hbounds.2
  have hfields : UInt64.ofNat (wireRead (contractTransactionBytes tx) 4 8) = tx.sequence ∧
      octetsAt (contractTransactionBytes tx) 20 32 = tx.actor ∧
      octetsAt (contractTransactionBytes tx) 52 64 = tx.signature := by
    simp (disch := simp) only [contractTransactionBytes, List.append_assoc, wireRead_append_left,
      wireRead_append_right, octetsAt_append_left, octetsAt_append_right, length_wireWrite,
      length_octetBytes, Nat.reduceSub, ofNat_wireRead_wireWrite_eight, octetsAt_octetBytes,
      and_self]
  have hcanonical : BigEndian.field (contractTransactionBytes tx) contractTxHeaderSize
      tx.canonicalContract.length = tx.canonicalContract := by
    rw [contractTransactionBytes, List.append_assoc,
      BigEndian.field_append_right (k := 0) (by simp [contractTxHeaderSize]),
      BigEndian.field_append_left (by simp), BigEndian.field_zero_length rfl]
  have hevidence : BigEndian.field (contractTransactionBytes tx)
      (contractTxHeaderSize + tx.canonicalContract.length)
      (tx.authorityEvidence.getD []).length = tx.authorityEvidence.getD [] := by
    rw [contractTransactionBytes,
      BigEndian.field_append_right (k := 0) (by simp [contractTxHeaderSize]; omega),
      BigEndian.field_zero_length rfl]
  obtain ⟨hsequence, hactor, hsignature⟩ := hfields
  have hrange : ¬(tx.canonicalContract.length < contractHeaderSize ∨
      tx.canonicalContract.length > contractMaxSize) := by
    omega
  have hauthorized : ¬(tx.action ≠ .create ∧
      (!authorityEvidenceValidate (tx.authorityEvidence.getD [])) = true) := by
    rintro ⟨haction, hrefused⟩
    simp [h.evidence haction] at hrefused
  have hborrowed : (if (tx.authorityEvidence.getD []).length = 0 then none
      else some (tx.authorityEvidence.getD [])) = tx.borrowed.authorityEvidence := by
    cases hspan : tx.authorityEvidence with
    | none => simp [ContractTransaction.borrowed, hspan]
    | some evidence =>
        by_cases hempty : evidence = []
        · simp [ContractTransaction.borrowed, hspan, hempty, Option.filter]
        · simp [ContractTransaction.borrowed, hspan, hempty, Option.filter]
  simp only [contractTransactionDecode, if_neg hsize, hversion, haction, hcontractLength,
    hevidenceLength, ContractAction.ofWire_toWire, if_neg hrange, h.evidenceLength, Bool.not_true,
    Bool.false_eq_true, if_false, ← hlength, ne_eq, not_true_eq_false, hcanonical, hevidence,
    hcontract, h.admission, if_neg hauthorized, hborrowed, hsequence, hactor, hsignature]
  rw [← h.version]
  rfl

/-- A decoded transaction was checked, and its octets are the ones that encode it. -/
theorem contractTransactionDecode_eq_ok (h : contractTransactionDecode input = .ok tx) :
    tx.Checked ∧ input = contractTransactionBytes tx := by
  simp only [contractTransactionDecode] at h
  split at h
  · cases h
  next hsize =>
  split at h
  · cases h
  next hversion =>
  split at h
  · cases h
  next action haction =>
  split at h
  · cases h
  next hrange =>
  split at h
  · cases h
  next hevidenceLength =>
  split at h
  · cases h
  next hlength =>
  split at h
  · cases h
  next contract hcontract =>
  split at h
  · cases h
  next hadmission =>
  split at h
  · cases h
  next hauthorized =>
  obtain rfl := Except.ok.inj h
  rw [not_not] at hversion hlength
  have hheader : contractTxHeaderSize = 116 := rfl
  have hcanonical : (BigEndian.field input contractTxHeaderSize (wireRead input 12 4)).length =
      wireRead input 12 4 :=
    BigEndian.length_field (by omega)
  have hevidence : (BigEndian.field input (contractTxHeaderSize + wireRead input 12 4)
      (wireRead input 16 4)).length = wireRead input 16 4 :=
    BigEndian.length_field (by omega)
  have hspan : (if wireRead input 16 4 = 0 then none else some (BigEndian.field input
      (contractTxHeaderSize + wireRead input 12 4) (wireRead input 16 4)) :
        Option Bytes).getD [] =
      BigEndian.field input (contractTxHeaderSize + wireRead input 12 4)
        (wireRead input 16 4) := by
    split
    · next hzero => rw [hzero, field_zero, Option.getD_none]
    · rw [Option.getD_some]
  constructor
  · constructor
    · rfl
    · dsimp only
      omega
    · dsimp only
      rw [hspan, hevidence]
      simpa using hevidenceLength
    · exact ⟨contract, hcontract⟩
    · exact hadmission
    · intro hother
      dsimp only at hother ⊢
      rw [hspan]
      by_contra hrefused
      exact hauthorized ⟨hother, by simpa using hrefused⟩
  · have hone : wireWrite 2 (1 : UInt16).toNat = wireWrite 2 (wireRead input 0 2) := by
      rw [hversion]
      rfl
    simp only [contractTransactionBytes, hspan, hcanonical, hevidence, hone,
      ContractAction.toWire_ofWire haction, toNat_ofNat_wireRead_eight]
    rw [wireWrite_wireRead (by omega), wireWrite_wireRead (by omega),
      wireWrite_wireRead (by omega), wireWrite_wireRead (by omega),
      wireWrite_wireRead (by omega), octetBytes_octetsAt (by omega),
      octetBytes_octetsAt (by omega)]
    repeat rw [BigEndian.field_append_field]
    simp only [contractTxHeaderSize, Nat.reduceAdd]
    rw [field_prefix_append, field_prefix_append]
    exact (BigEndian.field_zero_length (by omega)).symm

end Transactions

end StnChain
