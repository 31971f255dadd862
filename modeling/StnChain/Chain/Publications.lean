import StnChain.Chain.Revocations
import StnChain.Chain.Rotations

/-!
# Publications of a history

Which publications an accepted history holds.  From the activation height on each of them is
signed by its signer, who has not been rotated away, is authorised by an earlier grant of a
genesis root that no earlier transaction revokes, and is not published twice,
`publication_authorised`.
-/

namespace StnChain

section

variable [Primitives]

/-! ## What earlier transactions leave -/

/-- The transactions of a history from a height on. -/
def transactionsFrom (height : UInt64) (blocks : List Bytes) : List Transaction :=
  historyTransactions (blocks.drop height.toNat)

section Kept

variable {c : ChainContext} {P : LifecycleState → Prop} (hP : LifecycleKept c P)

include hP

/-- A property that every lifecycle transaction of a kind establishes holds after every part of
a block with one, from the activation height on. -/
theorem LifecycleKept.applied_of_active {env : CandidateEnv} (henv : env.context = c)
    (hsome : env.hasLifecycle = true) {tx : Transaction} (htype : tx.type.isLifecycle = true)
    (hactive : tx.type = .publication →
      env.prior.publicationActivationHeight ≤ env.header.height)
    (hstep : ∀ s s', lifecycleApplyTransaction s tx c.genesisAuthorityRoots c.hashProvider =
      (.ok, s') → P s') {ts : List Bytes} (htx : tx ∈ decodedTransactions ts)
    {s s' : ChainState} (h : Applied env ts s s') : P s'.lifecycle := by
  obtain ⟨t, ht, hdecode⟩ := mem_decodedTransactions.mp htx
  obtain ⟨pre, post, rfl⟩ := List.append_of_mem ht
  have hevidence : tx.type ≠ .blockCompensationEvidence := by
    intro heq
    simp [heq, TransactionType.isLifecycle] at htype
  have hissuance : tx.issuance issuanceReasonBlock = none := by
    have hne : tx.type ≠ .issuance := by
      intro heq
      simp [heq, TransactionType.isLifecycle] at htype
    simp [Transaction.issuance, hne]
  obtain ⟨before, after, -, hround, hpost⟩ := h.round_at hdecode hevidence hissuance
  apply hP.applied henv hpost
  cases stepOf_of_applyTransaction hround with
  | lifecycle _ happly =>
      rcases applyLifecycle_eq_ok happly with ⟨-, hnone | ⟨hpublication, hbelow⟩⟩ | ⟨-, -, hnext⟩
      · simp [hsome] at hnone
      · exact absurd hbelow (UInt64.not_lt.mpr (hactive hpublication))
      · exact hstep _ _ (henv ▸ hnext)
  | issuance htype' _ | transfer htype' _ | destination htype' _ | contract htype' _
  | share htype' _ => simp [htype', TransactionType.isLifecycle] at htype

/-- Such a property holds in every history with one from the activation height on. -/
theorem LifecycleKept.reaches_of_active {tx : Transaction} (htype : tx.type.isLifecycle = true)
    (hstep : ∀ s s', lifecycleApplyTransaction s tx c.genesisAuthorityRoots c.hashProvider =
      (.ok, s') → P s') {blocks : List Bytes} {s : ChainState} (h : Reaches c blocks s)
    (htx : tx ∈ transactionsFrom s.publicationActivationHeight blocks) : P s.lifecycle := by
  obtain ⟨bytes, hbytes, hin⟩ := List.mem_flatMap.mp htx
  obtain ⟨front, rest, hsplit⟩ := List.append_of_mem hbytes
  -- The block stands at or above the activation height.
  obtain ⟨past, hpast, hlow⟩ : ∃ past, blocks = past ++ bytes :: rest ∧
      s.publicationActivationHeight.toNat ≤ past.length := by
    refine ⟨blocks.take s.publicationActivationHeight.toNat ++ front, ?_, ?_⟩
    · rw [List.append_assoc, ← hsplit, List.take_append_drop]
    · have hroom : s.publicationActivationHeight.toNat ≤ blocks.length := by
        by_contra hlong
        rw [List.drop_of_length_le (by omega)] at hbytes
        cases hbytes
      rw [List.length_append, List.length_take]
      omega
  subst hpast
  obtain ⟨prior, s', hprior, hround, hnext⟩ := h.step_at
  obtain ⟨b, flags, candidate, hprepared, happlied⟩ := reconstructStep_eq_ok_iff.mp hround
  have hactive : prior.publicationActivationHeight ≤ b.header.height := by
    rw [Except.ok.inj (hprior.activation.symm.trans h.activation), UInt64.le_iff_toNat_le,
      hprepared.height_eq hprior.tipOf]
    exact hlow
  rw [blockTransactions_of_decode hprepared.decode] at hin
  have hflag := hprepared.hasLifecycle hin htype fun _ => hactive
  have hdone := hP.applied_of_active rfl hflag htype (fun _ => hactive) hstep hin happlied
  have happend : past ++ bytes :: rest = (past ++ [bytes]) ++ rest := by simp
  exact hP.reaches_from hnext (happend ▸ h) hdone

end Kept

/-- A grant among some transactions that the roots have signed. -/
def GrantedBy (c : ChainContext) (txs : List Transaction) (grant : Bytes) : Prop :=
  ∃ tx ∈ txs, tx.type = .authorityGrant ∧ tx.record = grant ∧
    authorityGrantValidate grant c.genesisAuthorityRoots = .valid

theorem GrantedBy.mono {c : ChainContext} {txs txs' : List Transaction} {grant : Bytes}
    (h : GrantedBy c txs grant) (hsub : txs ⊆ txs') : GrantedBy c txs' grant := by
  obtain ⟨tx, htx, hgrant⟩ := h
  exact ⟨tx, hsub htx, hgrant⟩

/-- Nothing but a valid grant joins the accepted ones. -/
theorem Applied.grantedBy {env : CandidateEnv} {ts : List Bytes} {s s' : ChainState}
    (h : Applied env ts s s') : ∀ grant ∈ s'.lifecycle.grants, grant ∈ s.lifecycle.grants ∨
      GrantedBy env.context (decodedTransactions ts) grant := by
  induction h with
  | nil => exact fun grant hgrant => .inl hgrant
  | @single t tx ts s s₁ s' hdecode _ hstep _ ih =>
      intro grant hgrant
      have hcons : decodedTransactions (t :: ts) = tx :: decodedTransactions ts :=
        decodedTransactions_cons hdecode
      rcases ih grant hgrant with hold | hnew
      · rcases applyTransaction_lifecycle hstep with hsame | happlied
        · exact .inl (hsame ▸ hold)
        · have hadvance := lifecycleApplyTransaction_eq_ok happlied
          rw [hadvance.grants, List.mem_append] at hold
          rcases hold with hold | hadded
          · exact .inl hold
          · have hvalid := hadvance.valid grant hadded
            rw [Transaction.granted] at hadded
            split at hadded
            · next htype =>
                obtain rfl := List.mem_singleton.mp hadded
                exact .inr ⟨tx, hcons ▸ List.mem_cons_self, htype, rfl, hvalid⟩
            · cases hadded
      · exact .inr (hnew.mono (hcons ▸ List.subset_cons_self _ _))
  | @pair t next tx ts s s₁ s' hdecode _ hstep _ ih =>
      intro grant hgrant
      obtain ⟨_, _, _, _, _, _, _, _, _, _, _, _, _, _, rfl⟩ := applyPair_eq_ok hstep
      rcases ih grant hgrant with hold | hnew
      · exact .inl hold
      · refine .inr (hnew.mono fun tx htx => ?_)
        obtain ⟨t', ht', hdecode'⟩ := mem_decodedTransactions.mp htx
        exact mem_decodedTransactions.mpr
          ⟨t', List.mem_cons_of_mem _ (List.mem_cons_of_mem _ ht'), hdecode'⟩

theorem Reaches.grantedBy {c : ChainContext} {blocks : List Bytes} {s : ChainState}
    (h : Reaches c blocks s) :
    ∀ grant ∈ s.lifecycle.grants, GrantedBy c (historyTransactions blocks) grant := by
  refine h.invariant (P := fun blocks s =>
    ∀ grant ∈ s.lifecycle.grants, GrantedBy c (historyTransactions blocks) grant) ?_ ?_
  · intro s hs grant hgrant
    obtain ⟨-, activation, -, rfl⟩ := chainInitialize_eq_ok hs
    have hnone : (lifecycleNew c).grants = [] := by
      simp only [lifecycleNew, lifecycleSetInitialIdentities]
      split <;> rfl
    simp [emptyState, hnone] at hgrant
  · intro past s bytes b flags candidate s' _ hs hprepared happlied grant hgrant
    obtain ⟨-, -, -, -, -, -, hinherit⟩ := hprepared.next_state
    rw [historyTransactions_append, historyTransactions_singleton hprepared.decode]
    rcases happlied.grantedBy grant hgrant with hold | hnew
    · obtain ⟨grants, replays, hlifecycle⟩ := hinherit.lifecycle
      rw [hlifecycle] at hold
      exact (hs grant hold).mono (List.subset_append_left _ _)
    · exact hnew.mono (List.subset_append_right _ _)

theorem consumed_kept (c : ChainContext) (id : ReplayId) :
    LifecycleKept c fun s => id ∈ s.replay.consumed where
  rebind _ _ hs := hs
  apply h hs := by
    obtain ⟨added, hreplay⟩ := (lifecycleApplyTransaction_eq_ok h).replay
    rw [hreplay]
    exact List.mem_append_left _ hs

/-- An accepted publication consumes its signer and nonce. -/
theorem lifecycleApplyTransaction_published {tx : Transaction} (htype : tx.type = .publication)
    {record : Record} (hrecord : recordDecode tx.record = .ok record)
    {roots : List (Octets 32)} {provider : HashProvider} (s s' : LifecycleState)
    (h : lifecycleApplyTransaction s tx roots provider = (.ok, s')) :
    ⟨record.signerPublicKey, record.nonce⟩ ∈ s'.replay.consumed := by
  simp only [lifecycleApplyTransaction, htype, hrecord] at h
  obtain ⟨id, hid, -, rfl⟩ := consumeReplayId_eq_ok h
  obtain rfl := replayIdFromSignerNonce_eq_some hid
  simp

/-! ## What a publication needs -/

omit [Primitives] in
/-- A grant whose identifier is not revoked authorises a publication that passes the loop. -/
theorem publicationAuthorized_eq_true {s : LifecycleState} {signer action context : Octets 32}
    {provider : HashProvider} {grants : List Bytes}
    (h : publicationAuthorized s signer action context provider false grants = .ok true) :
    ∃ grant ∈ grants, ∃ id, authorityGrantId grant provider = .ok id ∧
      authorityStateIsRevoked s.authority id = false ∧
      authorityEvaluate signer action context (some (grantScope grant).2) = .authorized := by
  have hloop : ∀ authorized, publicationAuthorized s signer action context provider authorized
      grants = .ok true → authorized = true ∨ ∃ grant ∈ grants, ∃ id,
        authorityGrantId grant provider = .ok id ∧ authorityStateIsRevoked s.authority id = false ∧
          authorityEvaluate signer action context (some (grantScope grant).2) = .authorized := by
    intro authorized hauthorized
    clear h
    induction grants generalizing authorized with
    | nil => exact .inl (Except.ok.inj hauthorized)
    | cons grant rest ih =>
        simp only [publicationAuthorized] at hauthorized
        split at hauthorized
        · cases hauthorized
        split at hauthorized
        · cases hauthorized
        next id hid =>
        rcases ih _ hauthorized with hflag | ⟨grant', hgrant', hfound⟩
        · rcases Bool.or_eq_true_iff.mp hflag with hflag | hgrants
          · exact .inl hflag
          · simp only [Bool.and_eq_true, Bool.not_eq_true', decide_eq_true_eq] at hgrants
            exact .inr ⟨grant, List.mem_cons_self, id, hid, hgrants.1, hgrants.2⟩
        · exact .inr ⟨grant', List.mem_cons_of_mem _ hgrant', hfound⟩
  rcases hloop false h with hfalse | hfound
  · cases hfalse
  · exact hfound

/-- What a publication that passes its check needs of the lifecycle. -/
structure LifecycleState.Permits (s : LifecycleState) (provider : HashProvider) (bytes : Bytes)
    (record : Record) : Prop where
  decode : recordDecode bytes = .ok record
  payload : ∃ intelligence, intelligenceDecode record.payload = .ok intelligence
  signed : identityVerify record.signerPublicKey (identityStatement (recordUnsigned bytes record))
    record.signature = .valid
  current : ∀ r ∈ s.rotation.rotations, r.oldIdentity ≠ record.signerPublicKey
  granted : ∃ action context, recordPublicationTokens bytes provider = .ok (action, context) ∧
    ∃ grant ∈ s.grants, ∃ id, authorityGrantId grant provider = .ok id ∧
      authorityStateIsRevoked s.authority id = false ∧
      authorityEvaluate record.signerPublicKey action context (some (grantScope grant).2) =
        .authorized
  fresh : ⟨record.signerPublicKey, record.nonce⟩ ∉ s.replay.consumed

theorem lifecycleCheckPublication_permits {s : LifecycleState} {bytes : Bytes}
    {provider : HashProvider} (h : lifecycleCheckPublication s bytes provider = .ok) :
    ∃ record, s.Permits provider bytes record := by
  obtain ⟨record', id', hdecode', hid', hfresh', hcurrent⟩ := lifecycleCheckPublication_eq_ok h
  simp only [lifecycleCheckPublication] at h
  split at h
  · cases h
  next record hdecode =>
  obtain rfl := Except.ok.inj (hdecode'.symm.trans hdecode)
  split at h
  · cases h
  next intelligence hpayload =>
  split at h
  · cases h
  next action context htokens =>
  split at h
  · cases h
  split at h
  · cases h
  next hsigned =>
  split at h
  · cases h
  split at h
  · next hloop =>
      subst h
      exact absurd hloop publicationAuthorized_ne_ok
  · cases h
  next hgranted =>
  refine ⟨record', hdecode, ⟨intelligence, hpayload⟩, not_not.mp hsigned, hcurrent,
    ⟨action, context, htokens, publicationAuthorized_eq_true hgranted⟩, ?_⟩
  obtain rfl := replayIdFromSignerNonce_eq_some hid'
  intro hconsumed
  simp only [replayStateCheck] at hfresh'
  split at hfresh'
  · cases hfresh'
  · cases hfresh'

/-! ## Publications of a history -/

/-- A publication that the transactions before it authorise.  Those in `active` stand at or
above the activation height. -/
structure PublicationAuthorised (c : ChainContext) (earlier active : List Transaction)
    (bytes : Bytes) (record : Record) : Prop where
  decode : recordDecode bytes = .ok record
  payload : ∃ intelligence, intelligenceDecode record.payload = .ok intelligence
  signed : identityVerify record.signerPublicKey (identityStatement (recordUnsigned bytes record))
    record.signature = .valid
  granted : ∃ grant action context, GrantedBy c earlier grant ∧
    recordPublicationTokens bytes c.hashProvider = .ok (action, context) ∧
    authorityEvaluate record.signerPublicKey action context (some (grantScope grant).2) =
      .authorized ∧
    ∀ revocation ∈ earlier, revocation.type = .authorityRevoke →
      ¬RevokedBy revocation.record grant c.hashProvider
  current : ∀ rotation ∈ earlier, rotation.type = .identityRotate →
    octetsAt rotation.record 1 32 ≠ record.signerPublicKey
  once : ∀ publication ∈ active, publication.type = .publication →
    ∀ other, recordDecode publication.record = .ok other →
      ¬(other.signerPublicKey = record.signerPublicKey ∧ other.nonce = record.nonce)

/-- From the activation height on every publication of an accepted history is authorised by the
transactions before it: its signer has signed it and has not been rotated away, an earlier grant
of a genesis root covers it that no earlier transaction revokes, and it is not there twice. -/
theorem publication_authorised {c : ChainContext} {past rest : List Bytes} {bytes : Bytes}
    {s : ChainState} (h : Accepts c (past ++ bytes :: rest) s) {b : Block}
    (hblock : blockDecode bytes = .ok b) (hactive : s.publicationActivationHeight ≤ b.header.height)
    {pre post : List Bytes} {t : Bytes} (hsplit : b.transactions = pre ++ t :: post)
    {tx : Transaction} (hdecode : transactionDecode t = .ok tx) (htype : tx.type = .publication) :
    ∃ record, PublicationAuthorised c (historyTransactions past ++ decodedTransactions pre)
      (transactionsFrom s.publicationActivationHeight past ++ decodedTransactions pre)
      tx.record record := by
  obtain ⟨-, hreach⟩ := accepts_iff.mp h
  obtain ⟨prior, s', hprior, hstep, -⟩ := hreach.step_at
  obtain ⟨b', flags, candidate, hprepared, happlied⟩ := reconstructStep_eq_ok_iff.mp hstep
  obtain rfl := Except.ok.inj (hblock.symm.trans hprepared.decode)
  obtain ⟨-, -, -, -, -, -, hinherit⟩ := hprepared.next_state
  have hsame := Except.ok.inj (hprior.activation.symm.trans hreach.activation)
  rw [← hsame] at hactive ⊢
  have hflag : flags.lifecycle = true := by
    apply hprepared.hasLifecycle ?_ (by rw [htype]; rfl) fun _ => hactive
    exact mem_decodedTransactions.mpr ⟨t, by simp [hsplit], hdecode⟩
  rw [hsplit] at happlied
  obtain ⟨before, after, hpre, hround, -⟩ := happlied.round_at hdecode (by simp [htype])
    (by simp [Transaction.issuance, htype])
  have hcheck : lifecycleCheckPublication before.lifecycle tx.record c.hashProvider = .ok := by
    cases stepOf_of_applyTransaction hround with
    | lifecycle _ happly => exact applyLifecycle_checked happly hflag htype hactive
    | issuance htype' _ | transfer htype' _ | destination htype' _ | contract htype' _
    | share htype' _ => simp [htype] at htype'
  obtain ⟨record, hpermits⟩ := lifecycleCheckPublication_permits hcheck
  -- What an earlier transaction establishes holds where the publication is checked.
  have hearlier {P : LifecycleState → Prop} (hP : LifecycleKept c P) {tx' : Transaction}
      (hlifecycle : tx'.type.isLifecycle = true) (hne : tx'.type ≠ .publication)
      (hdone : ∀ s s', lifecycleApplyTransaction s tx' c.genesisAuthorityRoots c.hashProvider =
        (.ok, s') → P s')
      (hmem : tx' ∈ historyTransactions past ++ decodedTransactions pre) : P before.lifecycle := by
    rcases List.mem_append.mp hmem with hpast | hin
    · exact hP.applied rfl hpre (hP.inherit hinherit
        (hP.reaches_of_mem hlifecycle hne hdone hpast hprior))
    · exact hP.applied_of_mem rfl hflag hlifecycle hne hdone hin hpre
  have hascending : before.lifecycle.authority.Ascending :=
    ((revocable_kept c).applied rfl hpre
      ((revocable_kept c).inherit hinherit hprior.revocable)).ascending
  refine ⟨record, hpermits.decode, hpermits.payload, hpermits.signed, ?_, ?_, ?_⟩
  · obtain ⟨action, context, htokens, grant, hgrant, id, hid, hforce, hevaluate⟩ :=
      hpermits.granted
    refine ⟨grant, action, context, ?_, htokens, hevaluate, ?_⟩
    · rcases hpre.grantedBy grant hgrant with hold | hnew
      · obtain ⟨grants, replays, hinherited⟩ := hinherit.lifecycle
        rw [hinherited] at hold
        exact (hprior.grantedBy grant hold).mono (List.subset_append_left _ _)
      · exact hnew.mono (List.subset_append_right _ _)
    · intro revocation hmem hrevocation hrevoked
      have hrevokes := (hearlier (revoked_kept c revocation.record) (by rw [hrevocation]; rfl)
        (by simp [hrevocation]) (lifecycleApplyTransaction_revoked hrevocation) hmem).2
      obtain rfl := Except.ok.inj (hid.symm.trans hrevoked.id)
      rw [hascending.isRevoked_iff.mpr hrevokes] at hforce
      cases hforce
  · intro rotation hmem hrotation heq
    obtain ⟨r, hr, hold⟩ := hearlier (rotated_kept c (octetsAt rotation.record 1 32))
      (by rw [hrotation]; rfl) (by simp [hrotation])
      (lifecycleApplyTransaction_rotated hrotation) hmem
    exact hpermits.current r hr (hold.trans heq)
  · rintro publication hmem hpublication other hother ⟨hsigner, hnonce⟩
    have hkept := consumed_kept c ⟨other.signerPublicKey, other.nonce⟩
    have hlifecycle : publication.type.isLifecycle = true := by
      rw [hpublication]
      rfl
    have hdone : ∀ s s', lifecycleApplyTransaction s publication c.genesisAuthorityRoots
        c.hashProvider = (.ok, s') →
          ⟨other.signerPublicKey, other.nonce⟩ ∈ s'.replay.consumed :=
      lifecycleApplyTransaction_published hpublication hother
    have hconsumed : ⟨other.signerPublicKey, other.nonce⟩ ∈ before.lifecycle.replay.consumed := by
      rcases List.mem_append.mp hmem with hpast | hin
      · exact hkept.applied rfl hpre (hkept.inherit hinherit
          (hkept.reaches_of_active hlifecycle hdone hprior hpast))
      · exact hkept.applied_of_active rfl hflag hlifecycle (fun _ => hactive) hdone hin hpre
    rw [hsigner, hnonce] at hconsumed
    exact hpermits.fresh hconsumed

end

section Sample

attribute [local instance] Sample.granting

open Sample

theorem sample_revoking_block : ∃ b, blockDecode revoking = .ok b ∧ b.header.height = 1 ∧
    b.transactions = [published 6 sixthSignature, published 8 eighthSignature,
      transaction .authorityRevoke revocationRecord] := by
  have hmap : (blockDecode revoking).map (fun b => (b.header.height, b.transactions)) =
      .ok (1, [published 6 sixthSignature, published 8 eighthSignature,
        transaction .authorityRevoke revocationRecord]) := by
    decide +kernel
  cases hdecode : blockDecode revoking with
  | error status =>
      rw [hdecode] at hmap
      cases hmap
  | ok b =>
      rw [hdecode] at hmap
      obtain ⟨hheight, htransactions⟩ := Prod.mk.inj (Except.ok.inj hmap)
      exact ⟨b, rfl, hheight, htransactions⟩

/-- The second publication stands before the revocation of its grant. -/
theorem sample_publication_authorised : ∃ s record,
    Accepts grantingContext ([grantingGenesis] ++ revoking :: [afterwards]) s ∧
    PublicationAuthorised grantingContext
      (historyTransactions [grantingGenesis] ++ decodedTransactions [published 6 sixthSignature])
      (transactionsFrom s.publicationActivationHeight [grantingGenesis] ++
        decodedTransactions [published 6 sixthSignature])
      (unsignedRecord 8 ++ octetBytes eighthSignature) record := by
  obtain ⟨s, hs⟩ := accepts_revoking
  have hall : Accepts grantingContext ([grantingGenesis] ++ revoking :: [afterwards]) s := hs
  obtain ⟨b, hblock, hheight, htransactions⟩ := sample_revoking_block
  have hsplit : b.transactions = [published 6 sixthSignature] ++ published 8 eighthSignature ::
      [transaction .authorityRevoke revocationRecord] := htransactions
  have hdecode : transactionDecode (published 8 eighthSignature) =
      .ok ⟨1, .publication, unsignedRecord 8 ++ octetBytes eighthSignature⟩ := by
    decide +kernel
  have hactivation : chainPublicationActivation grantingContext = .ok 1 := by
    decide +kernel
  have hactive : s.publicationActivationHeight ≤ b.header.height := by
    rw [← Except.ok.inj (hactivation.symm.trans (accepts_iff.mp hall).2.activation), hheight]
    exact UInt64.le_refl 1
  obtain ⟨record, hauthorised⟩ :=
    publication_authorised hall hblock hactive hsplit hdecode rfl
  exact ⟨s, record, hall, hauthorised⟩

end Sample

end StnChain
