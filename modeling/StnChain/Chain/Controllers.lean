import StnChain.Chain.Transfers
import StnChain.Contract.Entries

/-!
# The keys behind wallets and votes

A key's `stn0_` address is its SHA-256 digest, while `stn_identity_derive` keeps the key
itself.  A transfer envelope spends from the wallet derived from the key itself, so from
the digest of the key, `spends_own_wallet`; a single convention, which would hash once
more, is compared with it at a sample key.
-/

namespace StnChain

section

variable [Primitives]

/-! ## One convention -/

/-- A key is eligible for the vote of a draft iff an approver of the draft is listed under
an identity. -/
def VotesAs (key : Octets 32) (identity : Address) : Prop :=
  ∀ canonicalDraft draft participants, draftView canonicalDraft = .ok draft →
    contractParticipants draft = .ok participants →
    (contractVoteEligible canonicalDraft key = .ok () ↔
      identity.identifier ∈ approversOf participants)

/-- An envelope that is well formed and signed by its controller, whatever its source. -/
structure TransferEnvelope.Signed (e : TransferEnvelope) : Prop where
  nonce : e.nonce ≠ 0
  signed : ∃ transfer, transferEncode e.transfer = .ok transfer ∧
    identityVerify e.controller (cString "STN-CHAIN:TRANSFER:ENVELOPE:AUTHORIZE:1" ++ [1] ++
      octetBytes e.controller ++ octetBytes e.nonce ++ transfer) e.signature = .valid

/-- The envelopes a key signs can spend from the wallet of an identity, and from no other. -/
def SpendsAs (key : Octets 32) (identity : Address) : Prop :=
  ∀ e : TransferEnvelope, e.controller = key → e.Signed →
    (transferEnvelopeAuthorizationVerify e = .ok () ↔
      walletDerive identity = .ok e.transfer.source)

/-- The key's `stn0_` address is the identity it votes and spends as. -/
def OneIdentityConvention (key : Octets 32) : Prop :=
  ∀ identity, addressDerive .identity (octetBytes key) = .ok identity →
    VotesAs key identity ∧ SpendsAs key identity

/-! ## The wallet of a key -/

omit [Primitives] in
theorem transferEncode_source {t : Transfer} {transfer : Bytes}
    (h : transferEncode t = .ok transfer) : t.source.type = .wallet := by
  simp only [transferEncode, transferValid] at h
  split at h
  · cases h
  next hvalid =>
  split at hvalid
  · cases hvalid
  next htypes =>
  rw [not_or, not_not] at htypes
  exact htypes.1

/-- A signed envelope is authorized iff its source is the wallet derived from the
controller's own octets. -/
theorem transferEnvelopeAuthorizationVerify_eq_ok_iff {e : TransferEnvelope}
    (hkey : identityDerive e.controller = some e.controller) (hsigned : e.Signed) :
    transferEnvelopeAuthorizationVerify e = .ok () ↔
      walletDerive ⟨.identity, e.controller⟩ = .ok e.transfer.source := by
  obtain ⟨transfer, htransfer, hvalid⟩ := hsigned.signed
  constructor
  · intro hverify
    have hcontrols := transferEnvelopeAuthorizationVerify_eq_ok hverify
    rw [hcontrols.derives, ← transferEncode_source htransfer]
  · intro hwallet
    simp only [transferEnvelopeAuthorizationVerify, transferEnvelopeAuthorizationStatement,
      if_neg hsigned.nonce, hkey, hwallet, htransfer, ne_eq, not_true_eq_false, if_false,
      if_pos hvalid]

/-- A key spends as the identity whose identifier is the key itself: a signed envelope is
authorized iff its source is the wallet derived from that identity, which the key's
`stn0_` identifier names, and no envelope of the key is accepted on another wallet. -/
theorem spends_own_wallet {key : Octets 32} (hkey : identityDerive key = some key) :
    SpendsAs key ⟨.identity, key⟩ ∧
    (∀ identity, addressDerive .identity (octetBytes key) = .ok identity →
      walletDerive ⟨.identity, key⟩ = .ok ⟨.wallet, identity.identifier⟩) ∧
    ∀ economy replay e accepted, e.controller = key →
      transferEnvelopeAccept economy replay e = .ok accepted →
      walletDerive ⟨.identity, key⟩ = .ok ⟨.wallet, e.transfer.source.identifier⟩ := by
  refine ⟨?_, ?_, ?_⟩
  · rintro e rfl hsigned
    exact transferEnvelopeAuthorizationVerify_eq_ok_iff hkey hsigned
  · intro identity hidentity
    simp only [walletDerive, addressDerive] at hidentity ⊢
    rw [if_neg (fun h => h rfl)]
    split at hidentity
    · cases hidentity
    next hlength =>
    split at hidentity
    · cases hidentity
    next digest hdigest =>
    obtain rfl := Except.ok.inj hidentity
    rw [if_neg hlength]
  · rintro economy replay e ⟨economy', replay'⟩ rfl haccept
    exact (transferEnvelopeAuthorizationVerify_eq_ok
      (transferEnvelopeAccept_eq_ok haccept).1).derives

end

section Sample

namespace Sample

/-- The `stn0_` identifier of the miner's key, its SHA-256 digest. -/
def carolId : Octets 32 :=
  0xfa6760b01c2edd9e0e724fe121535f9e5d77b85d9b47c24156909249c2b15e50

/-- A draft whose only approver is listed under that identifier. -/
def ballotDraft : Bytes :=
  [0x53, 0x54, 0x43, 0x54] ++ wireWrite 2 1 ++ wireWrite 2 1 ++ wireWrite 8 0 ++
    wireWrite 8 1000 ++ wireWrite 2 1 ++ wireWrite 2 1 ++ wireWrite 4 0 ++
    octetBytes carolId ++ wireWrite 2 4

/-- What the draft decodes to. -/
def ballotContract : Contract where
  version := 1
  type := .generic
  sequence := 0
  createdAt := 1000
  state := .draft
  participants := none
  participantCount := 1
  participantBytes := some (ballotDraft.drop 32)
  terms := none
  termsLength := 0

/-- The miner's envelope, from the wallet of its own key. -/
def carolEnvelope : TransferEnvelope where
  controller := carol.miningIdentity.identifier
  nonce := octetsAt paymentNonce 0 32
  transfer := payment
  signature := paymentSignature

/-- SHA-256 of the miner's key and of its identifier, and the miner's signature. -/
@[reducible] def controllerPrimitives : Primitives where
  sha256 _ bytes := .ok (if bytes = octetBytes carol.miningIdentity.identifier then carolId
    else 0x90c2f49ad406377619258731cd70fbe2dc53c5fb011b4989160b3c1b884a7ddd)
  ed25519Verify := signing.ed25519Verify

end Sample

attribute [local instance] Sample.controllerPrimitives

open Sample

theorem sample_envelope_signed : carolEnvelope.Signed where
  nonce := by decide +kernel
  signed := ⟨paymentBytes, by decide +kernel, by decide +kernel⟩

/-- The approver listed under the key's `stn0_` identifier may not vote with the key, and
the key spends from another wallet than the one derived from that identifier. -/
theorem sample_two_conventions :
    identityDerive carol.miningIdentity.identifier = some carol.miningIdentity.identifier ∧
    ∃ identity, addressDerive .identity (octetBytes carol.miningIdentity.identifier) =
        .ok identity ∧
      ¬ VotesAs carol.miningIdentity.identifier identity ∧
      ¬ SpendsAs carol.miningIdentity.identifier identity ∧
      ¬ OneIdentityConvention carol.miningIdentity.identifier := by
  have haddress : addressDerive .identity (octetBytes carol.miningIdentity.identifier) =
      .ok ⟨.identity, carolId⟩ := by decide +kernel
  have hvotes : ¬ VotesAs carol.miningIdentity.identifier ⟨.identity, carolId⟩ := by
    intro hvotes
    have heligible := (hvotes ballotDraft ballotContract [⟨carolId, .approver⟩]
      (by decide +kernel) (by decide +kernel)).mpr (by decide)
    exact absurd heligible (by decide +kernel)
  have hspends : ¬ SpendsAs carol.miningIdentity.identifier ⟨.identity, carolId⟩ := by
    intro hspends
    have hwallet := (hspends carolEnvelope rfl sample_envelope_signed).mp (by decide +kernel)
    exact absurd hwallet (by decide +kernel)
  exact ⟨by decide +kernel, _, haddress, hvotes, hspends,
    fun honly => hvotes (honly _ haddress).1⟩

/-- The miner's key spends from its own wallet. -/
theorem sample_spends_own_wallet :
    transferEnvelopeAuthorizationVerify carolEnvelope = .ok () := by
  have hkey : identityDerive carol.miningIdentity.identifier =
      some carol.miningIdentity.identifier := by decide +kernel
  exact ((spends_own_wallet hkey).1 carolEnvelope rfl sample_envelope_signed).mpr
    (by decide +kernel)

end Sample

end StnChain
