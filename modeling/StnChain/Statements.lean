import Mathlib.Algebra.Field.ZMod
import StnChain.Contract.Encoding
import StnChain.Economy.Transfer
import StnChain.Lifecycle
import StnChain.Support.Schnorr

/-!
# Signed statements

The six kinds of statement the node verifies signatures over.  Each starts with the text
of a domain and a zero octet, and publication records and contract actions share one
domain.  `fields_eq_of_octets` recovers the kind and the signed fields from the octets alone.

The octets do not settle what a signature vouches for: a key whose point has a small order is
an identity, and one signature under it verifies for several statements.
`signed_statements_unambiguous_iff` says for which.
-/

namespace StnChain

/-! ## Domains -/

/-- The first delimiter splits a list in one way. -/
theorem append_delimiter_inj {α : Type} {d : α} {xs ys x y : List α} (hxs : d ∉ xs) (hys : d ∉ ys)
    (h : xs ++ d :: x = ys ++ d :: y) : xs = ys ∧ x = y := by
  induction xs generalizing ys with
  | nil =>
      cases ys with
      | nil => exact ⟨rfl, (List.cons.inj h).2⟩
      | cons b ys => exact absurd ((List.cons.inj h).1 ▸ List.mem_cons_self) hys
  | cons a xs ih =>
      cases ys with
      | nil => exact absurd ((List.cons.inj h).1 ▸ List.mem_cons_self) hxs
      | cons b ys =>
          obtain ⟨rfl, hrest⟩ := List.cons.inj h
          obtain ⟨rfl, rfl⟩ := ih (fun hmem => hxs (List.mem_cons_of_mem _ hmem))
            (fun hmem => hys (List.mem_cons_of_mem _ hmem)) hrest
          exact ⟨rfl, rfl⟩

/-- The domains of signed statements. -/
inductive StatementDomain
  | record | grant | revoke | rotate | transfer
  deriving DecidableEq, Repr

/-- The text of a domain. -/
def StatementDomain.text : StatementDomain → Bytes
  | .record => ascii "STN-CHAIN:RECORD:SIGN:1"
  | .grant => ascii "STN-CHAIN:AUTHORITY:GRANT:1"
  | .revoke => ascii "STN-CHAIN:AUTHORITY:REVOKE:1"
  | .rotate => ascii "STN-CHAIN:IDENTITY:ROTATE:1"
  | .transfer => ascii "STN-CHAIN:TRANSFER:ENVELOPE:AUTHORIZE:1"

theorem StatementDomain.text_injective {a b : StatementDomain} (h : a.text = b.text) : a = b := by
  revert h
  cases a <;> cases b <;> decide

theorem StatementDomain.zero_notMem (a : StatementDomain) : (0 : UInt8) ∉ a.text := by
  cases a <;> decide

/-- A zero octet ends the domain: octets that start with two domains start with one. -/
theorem StatementDomain.append_inj {a b : StatementDomain} {x y : Bytes}
    (h : a.text ++ 0 :: x = b.text ++ 0 :: y) : a = b ∧ x = y := by
  obtain ⟨htext, hrest⟩ := append_delimiter_inj a.zero_notMem b.zero_notMem h
  exact ⟨text_injective htext, hrest⟩

/-! ## Statements -/

/-- A statement the node verifies, by what it is built from: a publication record, a
grant, a revocation, a rotation, a contract action or a transfer envelope. -/
inductive SignedStatement
  | publication (bytes : Bytes)
  | grant (issuer : Octets 32) (evidence : Bytes)
  | revocation (issuer id : Octets 32)
  | rotation (oldId newId : Octets 32)
  | contractAction (canonical : Bytes) (actor : Octets 32) (action : ContractAction)
      (sequence : UInt64)
  | transfer (envelope : TransferEnvelope)

/-- What a signature over a statement vouches for. -/
inductive SignedFields
  | publication (unsigned : Bytes)
  | grant (issuer : Octets 32) (evidence : Bytes)
  | revocation (issuer id : Octets 32)
  | rotation (oldId newId : Octets 32)
  | contractAction (canonical : Bytes) (actor : Octets 32) (action : ContractAction)
      (sequence : UInt64)
  | transfer (controller nonce : Octets 32) (transfer : Transfer)

namespace SignedStatement

/-- The signed fields of a statement; those of a record are its unsigned octets. -/
def fields : SignedStatement → SignedFields
  | .publication bytes =>
      .publication ((recordDecode bytes).toOption.elim [] (recordUnsigned bytes))
  | .grant issuer evidence => .grant issuer evidence
  | .revocation issuer id => .revocation issuer id
  | .rotation oldId newId => .rotation oldId newId
  | .contractAction canonical actor action sequence =>
      .contractAction canonical actor action sequence
  | .transfer envelope => .transfer envelope.controller envelope.nonce envelope.transfer

/-- The domain of a statement. -/
def domain : SignedStatement → StatementDomain
  | .publication _ | .contractAction .. => .record
  | .grant .. => .grant
  | .revocation .. => .revoke
  | .rotation .. => .rotate
  | .transfer _ => .transfer

variable [Primitives]

/-- The octets the node builds and verifies the signature over; `none` when it builds
none. -/
def octets : SignedStatement → Option Bytes
  | .publication bytes =>
      match recordDecode bytes with
      | .error _ => none
      | .ok record => some (identityStatement (recordUnsigned bytes record))
  | .grant issuer evidence => authorityGrantStatement issuer evidence
  | .revocation issuer id => authorityRevocationStatement issuer id
  | .rotation oldId newId => identityRotationStatement oldId newId
  | .contractAction canonical actor action sequence =>
      match contractDecode canonical, identityDerive actor with
      | .ok _, some canonicalActor =>
          some (identityStatement (contractUnsigned canonical canonicalActor action sequence))
      | _, _ => none
  | .transfer envelope => (transferEnvelopeAuthorizationStatement envelope).toOption

omit [Primitives] in
/-- The key the node verifies a statement under. -/
def signer : SignedStatement → Option (Octets 32)
  | .publication bytes => (recordDecode bytes).toOption.map Record.signerPublicKey
  | .grant issuer _ => some issuer
  | .revocation issuer _ => some issuer
  | .rotation oldId _ => some oldId
  | .contractAction _ actor _ _ => some actor
  | .transfer envelope => some envelope.controller

/-- How the node verifies a signature: a grant by the provider itself, every other
statement through `stn_identity_verify`. -/
def check : SignedStatement → Octets 32 → Bytes → Octets 64 → Bool
  | .grant .., key, statement, signature => Primitives.ed25519Verify statement key signature
  | _, key, statement, signature => identityVerify key statement signature = .valid

/-- A signature the node verifies for a statement, under the statement's own key. -/
def Verifies (a : SignedStatement) (signature : Octets 64) : Prop :=
  ∃ statement key, a.octets = some statement ∧ a.signer = some key ∧
    a.check key statement signature = true

/-- What follows the domain of a statement. -/
def Body : SignedStatement → Bytes → Prop
  | .publication bytes, body => ∃ record, recordDecode bytes = .ok record ∧
      body = recordUnsigned bytes record
  | .grant issuer evidence, body => evidence.length = authorityEvidenceSize ∧
      body = [1] ++ octetBytes issuer ++ evidence
  | .revocation issuer id, body => body = [1] ++ octetBytes issuer ++ octetBytes id
  | .rotation oldId newId, body => body = [1] ++ octetBytes oldId ++ octetBytes newId
  | .contractAction canonical actor action sequence, body =>
      (∃ contract, contractDecode canonical = .ok contract) ∧
        body = contractUnsigned canonical actor action sequence
  | .transfer envelope, body => ∃ transfer, transferEncode envelope.transfer = .ok transfer ∧
      body = [1] ++ octetBytes envelope.controller ++ octetBytes envelope.nonce ++ transfer

/-- The octets of a statement are its domain, a zero octet and its body. -/
theorem octets_eq_some {a : SignedStatement} {statement : Bytes} (h : a.octets = some statement) :
    ∃ body, statement = a.domain.text ++ 0 :: body ∧ a.Body body := by
  cases a with
  | publication bytes =>
      simp only [octets] at h
      split at h
      · simp at h
      next record hrecord =>
      obtain rfl := Option.some.inj h
      exact ⟨_, by simp [identityStatement, cString, domain, StatementDomain.text], record, hrecord,
        rfl⟩
  | grant issuer evidence =>
      simp only [octets, authorityGrantStatement] at h
      split at h
      · simp at h
      next id hid =>
      obtain rfl := identityDerive_eq_some hid
      split at h
      · simp at h
      next hevidence =>
      obtain rfl := Option.some.inj h
      refine ⟨_, by simp [cString, domain, StatementDomain.text], ?_, rfl⟩
      simp only [authorityEvidenceValidate, Bool.not_eq_true', Bool.not_eq_false,
        Bool.and_eq_true, decide_eq_true_eq] at hevidence
      exact hevidence.1.1.1.1
  | revocation issuer id =>
      simp only [octets, authorityRevocationStatement] at h
      split at h
      · simp at h
      next canonical hcanonical =>
      obtain rfl := identityDerive_eq_some hcanonical
      split at h
      · simp at h
      obtain rfl := Option.some.inj h
      exact ⟨_, by simp [cString, domain, StatementDomain.text], rfl⟩
  | rotation oldId newId =>
      simp only [octets, identityRotationStatement] at h
      split at h
      · next a b ha hb =>
          obtain rfl := identityDerive_eq_some ha
          obtain rfl := identityDerive_eq_some hb
          split at h
          · simp at h
          obtain rfl := Option.some.inj h
          exact ⟨_, by simp [cString, domain, StatementDomain.text], rfl⟩
      · simp at h
  | contractAction canonical actor action sequence =>
      simp only [octets] at h
      split at h
      · next contract canonicalActor hcontract hactor =>
          obtain rfl := identityDerive_eq_some hactor
          obtain rfl := Option.some.inj h
          exact ⟨_, by simp [identityStatement, cString, domain, StatementDomain.text],
            ⟨contract, hcontract⟩, rfl⟩
      · simp at h
  | transfer envelope =>
      simp only [octets, transferEnvelopeAuthorizationStatement] at h
      split at h
      · simp [Except.toOption] at h
      split at h
      · simp [Except.toOption] at h
      split at h
      · simp [Except.toOption] at h
      split at h
      · simp [Except.toOption] at h
      split at h
      · simp [Except.toOption] at h
      next transfer htransfer =>
      obtain rfl := Option.some.inj h
      exact ⟨_, by simp [cString, domain, StatementDomain.text], transfer, htransfer, rfl⟩

end SignedStatement

/-! ## Recovering the fields -/

/-- A record and a contract, which share a domain, start with different tags. -/
theorem take_recordUnsigned {bytes : Bytes} {record : Record}
    (h : recordDecode bytes = .ok record) :
    (recordUnsigned bytes record).take 4 = [0x53, 0x54, 0x4e, 0x52] := by
  simp only [recordDecode] at h
  split at h
  · simp at h
  split at h
  · simp at h
  split at h
  · simp at h
  next hmagic =>
  rw [recordUnsigned, List.take_take, min_eq_left (by simp only [recordHeaderSize]; omega)]
  exact not_not.mp hmagic

theorem take_contractUnsigned {canonical : Bytes} {contract : Contract}
    (h : contractDecode canonical = .ok contract) (actor : Octets 32) (action : ContractAction)
    (sequence : UInt64) :
    (contractUnsigned canonical actor action sequence).take 4 = [0x53, 0x54, 0x43, 0x54] := by
  simp only [contractDecode] at h
  split at h
  · simp at h
  next hsize =>
  split at h
  · simp at h
  split at h
  · simp at h
  next hmagic =>
  simp only [contractHeaderSize] at hsize
  rw [contractUnsigned, List.append_assoc, List.append_assoc,
    List.take_append_of_le_length (by omega)]
  exact not_not.mp hmagic

theorem ContractAction.toWire_injective {a b : ContractAction} (h : a.toWire = b.toWire) :
    a = b := by
  revert h
  cases a <;> cases b <;> decide

theorem wireWrite_toNat_injective {a b : UInt64} (h : wireWrite 8 a.toNat = wireWrite 8 b.toNat) :
    a = b := by
  apply UInt64.toNat_inj.mp
  exact BigEndian.write_injective a.toNat_lt b.toNat_lt h

/-- What follows the canonical contract has a fixed length, so the contract ends where it
starts. -/
theorem contractUnsigned_injective {canonical canonical' : Bytes} {actor actor' : Octets 32}
    {action action' : ContractAction} {sequence sequence' : UInt64}
    (h : contractUnsigned canonical actor action sequence =
      contractUnsigned canonical' actor' action' sequence') :
    canonical = canonical' ∧ actor = actor' ∧ action = action' ∧ sequence = sequence' := by
  obtain ⟨h, hsequence⟩ := List.append_inj' h (by simp)
  obtain ⟨h, haction⟩ := List.append_inj' h (by simp)
  obtain ⟨hcanonical, hactor⟩ := List.append_inj' h (by simp)
  refine ⟨hcanonical, octetBytes_injective hactor, ?_, wireWrite_toNat_injective hsequence⟩
  apply ContractAction.toWire_injective
  exact BigEndian.write_injective action.toWire_lt action'.toWire_lt haction

/-- A transfer that encodes is between wallets, and its octets are its fields. -/
theorem transferEncode_eq_ok {t : Transfer} {canonical : Bytes}
    (h : transferEncode t = .ok canonical) : ∃ source destination units,
      t = ⟨⟨.wallet, source⟩, ⟨.wallet, destination⟩, units⟩ ∧
      canonical = [1] ++ octetBytes source ++ octetBytes destination ++
        wireWrite 8 units.toNat := by
  obtain ⟨⟨sourceType, source⟩, ⟨destinationType, destination⟩, units⟩ := t
  simp only [transferEncode, transferValid] at h
  split at h
  · simp at h
  next hvalid =>
  split at hvalid
  · simp at hvalid
  next htypes =>
  obtain ⟨hsource, hdestination⟩ := not_or.mp htypes
  obtain rfl := not_not.mp hsource
  obtain rfl := not_not.mp hdestination
  exact ⟨source, destination, units, rfl, (Except.ok.inj h).symm⟩

theorem transferEncode_injective {t t' : Transfer} {canonical : Bytes}
    (h : transferEncode t = .ok canonical) (h' : transferEncode t' = .ok canonical) : t = t' := by
  obtain ⟨source, destination, units, rfl, rfl⟩ := transferEncode_eq_ok h
  obtain ⟨source', destination', units', rfl, hsame⟩ := transferEncode_eq_ok h'
  obtain ⟨hsame, hunits⟩ := List.append_inj' hsame (by simp)
  obtain ⟨hsame, hto⟩ := List.append_inj' hsame (by simp)
  obtain ⟨-, hfrom⟩ := List.append_inj' hsame (by simp)
  rw [octetBytes_injective hfrom, octetBytes_injective hto, wireWrite_toNat_injective hunits]

theorem length_transferEncode {t : Transfer} {canonical : Bytes}
    (h : transferEncode t = .ok canonical) : canonical.length = transferCanonicalSize := by
  obtain ⟨source, destination, units, -, rfl⟩ := transferEncode_eq_ok h
  simp [transferCanonicalSize]

namespace SignedStatement

variable [Primitives]

omit [Primitives] in
/-- Bodies of one domain that are equal have the same kind and fields. -/
theorem Body.fields_eq {a b : SignedStatement} {body : Bytes} (hdomain : a.domain = b.domain)
    (ha : a.Body body) (hb : b.Body body) : a.fields = b.fields := by
  -- Only publications and contract actions share a domain.
  cases a <;> cases b <;> cases hdomain
  case publication.publication bytes bytes' =>
    obtain ⟨record, hrecord, hbody⟩ := ha
    obtain ⟨record', hrecord', hbody'⟩ := hb
    simp only [fields, hrecord, hrecord', Except.toOption, Option.elim_some, ← hbody, hbody']
  case publication.contractAction bytes canonical actor action sequence =>
    obtain ⟨record, hrecord, rfl⟩ := ha
    obtain ⟨⟨contract, hcontract⟩, hbody⟩ := hb
    have htag := take_recordUnsigned hrecord
    rw [hbody, take_contractUnsigned hcontract] at htag
    exact absurd htag (by decide)
  case contractAction.publication canonical actor action sequence bytes =>
    obtain ⟨record, hrecord, rfl⟩ := hb
    obtain ⟨⟨contract, hcontract⟩, hbody⟩ := ha
    have htag := take_recordUnsigned hrecord
    rw [hbody, take_contractUnsigned hcontract] at htag
    exact absurd htag (by decide)
  case contractAction.contractAction =>
    obtain ⟨-, rfl⟩ := ha
    obtain ⟨-, hbody⟩ := hb
    obtain ⟨rfl, rfl, rfl, rfl⟩ := contractUnsigned_injective hbody
    rfl
  case grant.grant issuer evidence issuer' evidence' =>
    obtain ⟨hsize, rfl⟩ := ha
    obtain ⟨hsize', hbody⟩ := hb
    obtain ⟨hfront, hevidence⟩ := List.append_inj' hbody (hsize.trans hsize'.symm)
    obtain ⟨-, hissuer⟩ := List.append_inj' hfront (by simp)
    simp only [fields, octetBytes_injective hissuer, hevidence]
  case revocation.revocation issuer id issuer' id' =>
    obtain ⟨hbody, hid⟩ := List.append_inj' (ha.symm.trans hb) (by simp)
    obtain ⟨-, hissuer⟩ := List.append_inj' hbody (by simp)
    obtain rfl := octetBytes_injective hissuer
    obtain rfl := octetBytes_injective hid
    rfl
  case rotation.rotation oldId newId oldId' newId' =>
    obtain ⟨hbody, hnew⟩ := List.append_inj' (ha.symm.trans hb) (by simp)
    obtain ⟨-, hold⟩ := List.append_inj' hbody (by simp)
    obtain rfl := octetBytes_injective hold
    obtain rfl := octetBytes_injective hnew
    rfl
  case transfer.transfer envelope envelope' =>
    obtain ⟨transfer, htransfer, rfl⟩ := ha
    obtain ⟨transfer', htransfer', hbody⟩ := hb
    obtain ⟨hbody, hsame⟩ := List.append_inj' hbody
      ((length_transferEncode htransfer).trans (length_transferEncode htransfer').symm)
    obtain ⟨hbody, hnonce⟩ := List.append_inj' hbody (by simp)
    obtain ⟨-, hcontroller⟩ := List.append_inj' hbody (by simp)
    rw [← hsame] at htransfer'
    simp only [fields, transferEncode_injective htransfer htransfer',
      octetBytes_injective hnonce, octetBytes_injective hcontroller]

/-- The octets of a statement determine its kind and its signed fields. -/
theorem fields_eq_of_octets {a b : SignedStatement} {statement : Bytes}
    (ha : a.octets = some statement) (hb : b.octets = some statement) : a.fields = b.fields := by
  obtain ⟨body, rfl, hbody⟩ := octets_eq_some ha
  obtain ⟨body', hsame, hbody'⟩ := octets_eq_some hb
  obtain ⟨hdomain, rfl⟩ := StatementDomain.append_inj hsame
  exact hbody.fields_eq hdomain hbody'

end SignedStatement

/-! ## The checks of the node -/

section Checks

variable [Primitives]

omit [Primitives] in
theorem statementVerdict_eq_valid {result : IdentityResult}
    (h : statementVerdict result = .valid) : result = .valid := by
  cases result <;> simp_all [statementVerdict]

theorem lifecycleCheckPublication_verifies {s : LifecycleState} {bytes : Bytes}
    {provider : HashProvider} (h : lifecycleCheckPublication s bytes provider = .ok) :
    ∃ record, recordDecode bytes = .ok record ∧
      (SignedStatement.publication bytes).Verifies record.signature := by
  simp only [lifecycleCheckPublication] at h
  split at h
  · simp at h
  next record hrecord =>
  split at h
  · simp at h
  split at h
  · simp at h
  split at h
  · simp at h
  split at h
  · simp at h
  next hverify =>
  refine ⟨record, hrecord, _, record.signerPublicKey, ?_, ?_, decide_eq_true (not_not.mp hverify)⟩
  · simp only [SignedStatement.octets, hrecord]
  · simp only [SignedStatement.signer, hrecord, Except.toOption, Option.map_some]

theorem authorityGrantValidate_verifies {grant : Bytes} {roots : List (Octets 32)}
    (h : authorityGrantValidate grant roots = .valid) :
    (SignedStatement.grant (octetsAt grant 1 32)
      (BigEndian.field grant 33 authorityEvidenceSize)).Verifies (octetsAt grant 130 64) := by
  simp only [authorityGrantValidate] at h
  split at h
  · simp at h
  split at h
  · simp at h
  split at h
  · simp at h
  next statement hstatement =>
  split at h
  · next hverify => exact ⟨statement, _, hstatement, rfl, hverify.2⟩
  · simp at h

theorem authorityRevocationValidate_verifies {revocation grant : Bytes} {roots : List (Octets 32)}
    {provider : HashProvider}
    (h : (authorityRevocationValidate revocation grant roots provider).1 = .valid) :
    ∃ id, (SignedStatement.revocation (octetsAt revocation 1 32) id).Verifies
      (octetsAt revocation 65 64) := by
  simp only [authorityRevocationValidate] at h
  split at h
  · simp at h
  split at h
  · simp at h
  · simp at h
  split at h
  · simp at h
  next id hid =>
  split at h
  · simp at h
  split at h
  · simp at h
  split at h
  · simp at h
  split at h
  · simp at h
  next statement hstatement =>
  exact ⟨id, statement, _, hstatement, rfl, decide_eq_true (statementVerdict_eq_valid h)⟩

/-- A rotation is verified unless it was accepted before. -/
theorem identityRotationValidate_verifies {rotation : Bytes} {state : IdentityRotationState}
    {roots : List (Octets 32)} (h : identityRotationValidate rotation state roots = .valid) :
    (rotationScan (octetsAt rotation 1 32) (octetsAt rotation 33 32) state.rotations).isSome ∨
      (SignedStatement.rotation (octetsAt rotation 1 32) (octetsAt rotation 33 32)).Verifies
        (octetsAt rotation 65 64) := by
  simp only [identityRotationValidate] at h
  split at h
  · simp at h
  split at h
  · next oldId newId hold hnew =>
      obtain rfl := identityDerive_eq_some hold
      obtain rfl := identityDerive_eq_some hnew
      split at h
      · simp at h
      split at h
      · next hscan => exact .inl (by simp [hscan])
      split at h
      · simp at h
      split at h
      · simp at h
      next statement hstatement =>
      exact .inr ⟨statement, _, hstatement, rfl, decide_eq_true (statementVerdict_eq_valid h)⟩
  · simp at h

theorem contractSignatureVerify_verifies {actor : Octets 32} {action : ContractAction}
    {canonical : Bytes} {sequence : UInt64} {signature : Octets 64}
    (h : contractSignatureVerify actor action canonical sequence signature = .ok ()) :
    (SignedStatement.contractAction canonical actor action sequence).Verifies signature := by
  simp only [contractSignatureVerify] at h
  split at h
  · simp at h
  next contract hcontract =>
  split at h
  · simp at h
  next canonicalActor hactor =>
  split at h
  · next hverify =>
      obtain rfl := identityDerive_eq_some hactor
      refine ⟨_, _, ?_, rfl, decide_eq_true hverify⟩
      simp only [SignedStatement.octets, hcontract, hactor]
  · simp at h

theorem transferEnvelopeAuthorizationVerify_verifies {e : TransferEnvelope}
    (h : transferEnvelopeAuthorizationVerify e = .ok ()) :
    (SignedStatement.transfer e).Verifies e.signature := by
  simp only [transferEnvelopeAuthorizationVerify] at h
  split at h
  · simp at h
  next statement hstatement =>
  split at h
  · next hverify =>
      refine ⟨_, _, ?_, rfl, decide_eq_true hverify⟩
      simp only [SignedStatement.octets, hstatement, Except.toOption]
  · simp at h

end Checks

/-! ## What a signature vouches for -/

section Signatures

variable [Primitives]

/-- The provider verifies by the scheme (`ed25519_sign_open`): the response has at most 253
bits, and the commitment computed back from it is the one of the signature. -/
def OpensBy {G : Type} [AddGroup G] (s : Schnorr.Scheme G (Octets 32) Bytes) : Prop :=
  ∀ statement key signature, Primitives.ed25519Verify statement key signature = true ↔
    littleEndian (signatureScalar signature) < 2 ^ 253 ∧
      s.Verifies statement key (signaturePoint signature)
        (littleEndian (signatureScalar signature))

theorem identityVerify_eq_valid_iff {key : Octets 32} {statement : Bytes}
    {signature : Octets 64} : identityVerify key statement signature = .valid ↔
      (identityDerive key).isSome ∧ canonicalPoint (signaturePoint signature) ∧
        canonicalScalar (signatureScalar signature) ∧ ¬ smallOrder (signaturePoint signature) ∧
        Primitives.ed25519Verify statement key signature = true := by
  simp only [identityVerify, identityDerive]
  split
  · simp
  split
  · next hmalformed =>
      simp only [Bool.or_eq_true, Bool.not_eq_true', or_assoc] at hmalformed
      grind
  next hformed =>
  simp only [Bool.or_eq_true, Bool.not_eq_true', not_or, Bool.not_eq_false] at hformed
  split
  · next hverify => simp [hformed, hverify]
  · next hverify => simp [hverify]

namespace SignedStatement

omit [Primitives] in
/-- What the node asks of a key and a signature before the provider is called. -/
def wellFormed : SignedStatement → Octets 32 → Octets 64 → Bool
  | .grant .., _, _ => true
  | _, key, signature =>
      (identityDerive key).isSome && canonicalPoint (signaturePoint signature) &&
        canonicalScalar (signatureScalar signature) && !smallOrder (signaturePoint signature)

theorem check_iff {a : SignedStatement} {key : Octets 32} {statement : Bytes}
    {signature : Octets 64} : a.check key statement signature = true ↔
      a.wellFormed key signature ∧ Primitives.ed25519Verify statement key signature = true := by
  cases a with
  | grant issuer evidence => exact ⟨fun h => ⟨rfl, h⟩, And.right⟩
  | _ =>
      unfold check wellFormed
      simp only [decide_eq_true_eq, identityVerify_eq_valid_iff,
        Bool.and_eq_true, Bool.not_eq_true', Bool.not_eq_true, and_assoc]

/-- Statements with the same fields are signed as the same octets. -/
theorem octets_eq_of_fields {a b : SignedStatement} {statement statement' : Bytes}
    (ha : a.octets = some statement) (hb : b.octets = some statement')
    (h : a.fields = b.fields) : statement = statement' := by
  cases a <;> cases b <;> simp only [fields, reduceCtorEq] at h
  case publication.publication bytes bytes' =>
    simp only [octets] at ha hb
    split at ha
    · simp at ha
    next record hrecord =>
    split at hb
    · simp at hb
    next record' hrecord' =>
    simp only [hrecord, hrecord', Except.toOption, Option.elim_some,
      SignedFields.publication.injEq] at h
    rw [← Option.some.inj ha, ← Option.some.inj hb, h]
  case transfer.transfer envelope envelope' =>
    obtain ⟨hcontroller, hnonce, htransfer⟩ := SignedFields.transfer.inj h
    simp only [octets, transferEnvelopeAuthorizationStatement, ← hcontroller, ← hnonce,
      ← htransfer] at ha hb
    exact Option.some.inj (ha.symm.trans hb)
  all_goals
    cases h
    exact Option.some.inj (ha.symm.trans hb)

/-- A signature of `a` is also one of `b`: it has the form `b` asks for, and the challenges
of two different statements take the points of their keys to one multiple. -/
def Confused {G : Type} [AddGroup G] (s : Schnorr.Scheme G (Octets 32) Bytes)
    (a b : SignedStatement) (signature : Octets 64) : Prop :=
  ∃ statement statement' key key', a.octets = some statement ∧ b.octets = some statement' ∧
    a.signer = some key ∧ b.signer = some key' ∧ statement ≠ statement' ∧
    b.wellFormed key' signature = true ∧
    s.Confuses (signaturePoint signature) key statement key' statement'

/-- Statements under one key are confused when their challenges are congruent modulo the
order of its point. -/
theorem confused_iff_modEq {G : Type} [AddGroup G] {s : Schnorr.Scheme G (Octets 32) Bytes}
    {a b : SignedStatement} {key : Octets 32} {signature : Octets 64}
    (ha : a.signer = some key) (hb : b.signer = some key) :
    Confused s a b signature ↔ ∃ statement statement' A, a.octets = some statement ∧
      b.octets = some statement' ∧ statement ≠ statement' ∧ b.wellFormed key signature = true ∧
      s.point key = some A ∧
      s.challenge (signaturePoint signature) key statement ≡
        s.challenge (signaturePoint signature) key statement' [MOD addOrderOf A] := by
  constructor
  · rintro ⟨m, m', k, k', hm, hm', hk, hk', hne, hformed, hconfuses⟩
    obtain rfl := Option.some.inj (ha.symm.trans hk)
    obtain rfl := Option.some.inj (hb.symm.trans hk')
    obtain ⟨A, hA, hmod⟩ := Schnorr.Scheme.confuses_self_iff.mp hconfuses
    exact ⟨m, m', A, hm, hm', hne, hformed, hA, hmod⟩
  · rintro ⟨m, m', A, hm, hm', hne, hformed, hA, hmod⟩
    exact ⟨m, m', key, key, hm, hm', ha, hb, hne, hformed,
      Schnorr.Scheme.confuses_self_iff.mpr ⟨A, hA, hmod⟩⟩

/-- A signature of one statement verifies for another with other fields exactly when it
confuses them. -/
theorem Verifies.fields_eq_iff {G : Type} [AddGroup G] {s : Schnorr.Scheme G (Octets 32) Bytes}
    (hs : OpensBy s) {a b : SignedStatement} {signature : Octets 64} (ha : a.Verifies signature) :
    (b.Verifies signature → a.fields = b.fields) ↔ ¬ Confused s a b signature := by
  obtain ⟨statement, key, hoctets, hkey, hcheck⟩ := ha
  obtain ⟨-, hverify⟩ := check_iff.mp hcheck
  obtain ⟨hresponse, hverifies⟩ := (hs statement key signature).mp hverify
  constructor
  · rintro hone ⟨m, m', k, k', hm, hm', hk, hk', hne, hformed, hconfuses⟩
    obtain rfl := Option.some.inj (hoctets.symm.trans hm)
    obtain rfl := Option.some.inj (hkey.symm.trans hk)
    -- The provider opens the signature for the other statement too.
    have hverify' : Primitives.ed25519Verify m' k' signature = true :=
      (hs m' k' signature).mpr ⟨hresponse, hverifies.iff_confuses.mpr hconfuses⟩
    have hfields := hone ⟨m', k', hm', hk', check_iff.mpr ⟨hformed, hverify'⟩⟩
    exact hne (octets_eq_of_fields hoctets hm' hfields)
  · rintro hnot ⟨m', k', hm', hk', hcheck'⟩
    obtain ⟨hformed, hverify'⟩ := check_iff.mp hcheck'
    have hverifies' := ((hs m' k' signature).mp hverify').2
    by_contra hfields
    refine hnot ⟨statement, m', key, k', hoctets, hm', hkey, hk', ?_, hformed,
      hverifies.iff_confuses.mp hverifies'⟩
    rintro rfl
    exact hfields (fields_eq_of_octets hoctets hm')

end SignedStatement

/-- Statements with equal octets have one kind and the same signed fields.  A signature of
one authorises no statement with other fields exactly when it does not confuse the two: under
one key, unless their challenges are congruent modulo the order of the key's point. -/
theorem signed_statements_unambiguous_iff {G : Type} [AddGroup G]
    {s : Schnorr.Scheme G (Octets 32) Bytes} (hs : OpensBy s) (a b : SignedStatement) :
    (∀ statement, a.octets = some statement → b.octets = some statement →
      a.fields = b.fields) ∧
    ∀ signature, a.Verifies signature →
      ((b.Verifies signature → a.fields = b.fields) ↔
        ¬ SignedStatement.Confused s a b signature) ∧
      ∀ key, a.signer = some key → b.signer = some key →
        (SignedStatement.Confused s a b signature ↔ ∃ statement statement' A,
          a.octets = some statement ∧ b.octets = some statement' ∧ statement ≠ statement' ∧
          b.wellFormed key signature = true ∧ s.point key = some A ∧
          s.challenge (signaturePoint signature) key statement ≡
            s.challenge (signaturePoint signature) key statement' [MOD addOrderOf A]) := by
  refine ⟨fun statement => SignedStatement.fields_eq_of_octets, fun signature ha => ?_⟩
  exact ⟨ha.fields_eq_iff hs, fun key => SignedStatement.confused_iff_modEq⟩

end Signatures

/-! ## A key of order two -/

section Sample

namespace Sample

/-- The encoding of the point of order two, octets `ec ff .. ff 7f`. -/
def torsionKey : Octets 32 :=
  0xecffffffffffffffffffffffffffffffffffffffffffffffffffffffffffff7f

/-- The encoding of the neutral element. -/
def neutralKey : Octets 32 :=
  1 <<< 248

/-- The commitment is the point of order two, and the response is zero. -/
def torsionSignature : Octets 64 :=
  torsionKey.append (0 : Octets 32)

/-- The statements of two rotations of the key, to the identities 2 and 5. -/
def torsionStatement (newId : Octets 32) : Bytes :=
  cString "STN-CHAIN:IDENTITY:ROTATE:1" ++ [1] ++ octetBytes torsionKey ++ octetBytes newId

/-- The points of order at most two, under responses of zero.  The challenges are those of
the rotations modulo two. -/
@[reducible] def torsionScheme : Schnorr.Scheme (ZMod 2) (Octets 32) Bytes where
  base := 0
  point key := if key = torsionKey then some 1 else if key = neutralKey then some 0 else none
  encode A := if A = 0 then neutralKey else torsionKey
  challenge _ _ statement :=
    if statement = torsionStatement 2 ∨ statement = torsionStatement 5 then 1 else 0
  encode_injective := by decide +kernel

/-- A provider of this scheme. -/
@[reducible] def torsionNode : Primitives where
  sha256 _ _ := .error .unresolved
  ed25519Verify statement key signature :=
    littleEndian (signatureScalar signature) < 2 ^ 253 ∧
      torsionScheme.Verifies statement key (signaturePoint signature)
        (littleEndian (signatureScalar signature))

/-- The octets of a rotation of the key under the signature. -/
def torsionRotation (newId : Octets 32) : Bytes :=
  [1] ++ octetBytes torsionKey ++ octetBytes newId ++ octetBytes torsionSignature

end Sample

attribute [local instance] Sample.torsionNode

namespace Sample

theorem torsionNode_opensBy : OpensBy torsionScheme := by
  intro statement key signature
  exact decide_eq_true_iff

/-- The node accepts the key and both rotations. -/
theorem torsion_accepted : identityDerive torsionKey = some torsionKey ∧
    identityRotationValidate (torsionRotation 2) ⟨torsionKey, torsionKey, []⟩ [7] = .valid ∧
    identityRotationValidate (torsionRotation 5) ⟨torsionKey, torsionKey, []⟩ [7] = .valid :=
  ⟨by decide +kernel, by decide +kernel, by decide +kernel⟩

/-- An accepted rotation of the key is verified under the signature. -/
theorem torsion_verifies {newId : Octets 32} {roots : List (Octets 32)}
    (h : identityRotationValidate (torsionRotation newId) ⟨torsionKey, torsionKey, []⟩ roots
      = .valid) :
    (SignedStatement.rotation torsionKey newId).Verifies torsionSignature := by
  have hold : octetsAt (torsionRotation newId) 1 32 = torsionKey := by
    rw [torsionRotation, octetsAt_append_left (by simp), octetsAt_append_left (by simp),
      octetsAt_append_right (by simp)]
    exact octetsAt_octetBytes torsionKey
  have hnew : octetsAt (torsionRotation newId) 33 32 = newId := by
    rw [torsionRotation, octetsAt_append_left (by simp), octetsAt_append_right (by simp)]
    simp
  have hsignature : octetsAt (torsionRotation newId) 65 64 = torsionSignature := by
    rw [torsionRotation, octetsAt_append_right (by simp)]
    simp
  rcases identityRotationValidate_verifies h with hscan | hverifies
  · simp [rotationScan] at hscan
  · rwa [hold, hnew, hsignature] at hverifies

end Sample

/-- A key of order two is an identity, and one signature under it authorises two
rotations. -/
theorem sample_signature_authorises_two :
    (identityDerive Sample.torsionKey).isSome ∧
    ¬ ∀ (a b : SignedStatement) (signature : Octets 64),
      a.Verifies signature → b.Verifies signature → a.fields = b.fields := by
  obtain ⟨hkey, hfirst, hsecond⟩ := Sample.torsion_accepted
  refine ⟨by simp [hkey], fun hone => ?_⟩
  have hfields := hone _ _ _ (Sample.torsion_verifies hfirst) (Sample.torsion_verifies hsecond)
  exact absurd (SignedFields.rotation.inj hfields).2 (by decide)

/-- The two rotations are confused, and a third, which does not verify, is not. -/
theorem sample_signed_statements :
    SignedStatement.Confused Sample.torsionScheme (.rotation Sample.torsionKey 2)
      (.rotation Sample.torsionKey 5) Sample.torsionSignature ∧
    ¬ SignedStatement.Confused Sample.torsionScheme (.rotation Sample.torsionKey 2)
      (.rotation Sample.torsionKey 3) Sample.torsionSignature := by
  obtain ⟨-, hfirst, hsecond⟩ := Sample.torsion_accepted
  have hverifies := Sample.torsion_verifies hfirst
  constructor
  · have hiff := ((signed_statements_unambiguous_iff Sample.torsionNode_opensBy _
      (.rotation Sample.torsionKey 5)).2 _ hverifies).1
    by_contra hnot
    have hfields := hiff.mpr hnot (Sample.torsion_verifies hsecond)
    exact absurd (SignedFields.rotation.inj hfields).2 (by decide)
  · have hiff := ((signed_statements_unambiguous_iff Sample.torsionNode_opensBy _
      (.rotation Sample.torsionKey 3)).2 _ hverifies).1
    refine hiff.mp ?_
    rintro ⟨statement, key, hstatement, hkey, hcheck⟩
    have hoctets : (SignedStatement.rotation Sample.torsionKey 3).octets =
        some (Sample.torsionStatement 3) := by decide +kernel
    obtain rfl := Option.some.inj (hoctets.symm.trans hstatement)
    obtain rfl := Option.some.inj hkey
    have hverify := (SignedStatement.check_iff.mp hcheck).2
    have hrefused : Primitives.ed25519Verify (Sample.torsionStatement 3) Sample.torsionKey
        Sample.torsionSignature = false := by decide +kernel
    exact absurd (hrefused.symm.trans hverify) Bool.false_ne_true

end Sample

end StnChain
