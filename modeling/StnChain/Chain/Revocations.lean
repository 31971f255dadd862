import StnChain.Chain.LifecycleRun

/-!
# Revocation

A grant signs its issuer and its evidence, and consumes a replay identifier made of
them, so no issuer grants the same evidence twice.  The identifier of a revoked grant
stays among the ascending revoked ones, and so the grant is not in force again.
-/

namespace StnChain

section

variable [Primitives]

/-! ## The revoked identifiers -/

omit [Primitives] in
/-- The identifiers a new one moves up are the back of the list. -/
theorem larger_suffix (id : Octets 32) (ids : List (Octets 32)) :
    (ids.reverse.takeWhile fun x => id < x).reverse <:+ ids := by
  rw [← List.reverse_prefix, List.reverse_reverse]
  exact List.takeWhile_prefix _

omit [Primitives] in
theorem mem_insertRevoked {x id : Octets 32} {ids : List (Octets 32)} :
    x ∈ insertRevoked id ids ↔ x = id ∨ x ∈ ids := by
  have hsplit := List.suffix_iff_eq_append.mp (larger_suffix id ids)
  have hmem := congrArg (x ∈ ·) hsplit
  simp only [List.mem_append, eq_iff_iff] at hmem
  simp only [insertRevoked, List.mem_append, List.mem_cons, ← hmem]
  tauto

omit [Primitives] in
/-- In an ascending list, inserting from the back is inserting from the front. -/
theorem insertRevoked_eq_insert {id : Octets 32} {ids : List (Octets 32)}
    (hs : SortedTable.Sorted BitVec.toNat ids) (hnew : id ∉ ids) :
    insertRevoked id ids = SortedTable.insert BitVec.toNat id ids := by
  have hkeys : ∀ x ∈ ids, x.toNat ≠ id.toNat := by
    intro x hx heq
    exact hnew (BitVec.eq_of_toNat_eq heq ▸ hx)
  have hlarger : (ids.reverse.takeWhile fun x => id < x).reverse =
      SortedTable.above BitVec.toNat id.toNat ids := by
    simp only [BitVec.lt_def]
    exact hs.rtakeWhile_eq_above hkeys
  have hsplit := List.suffix_iff_eq_append.mp (larger_suffix id ids)
  rw [hlarger] at hsplit
  have hkept : ids.take (ids.length - (SortedTable.above BitVec.toNat id.toNat ids).length) =
      SortedTable.below BitVec.toNat id.toNat ids := by
    exact List.append_cancel_right (hsplit.trans SortedTable.below_append_above.symm)
  simp only [insertRevoked, hlarger, hkept, SortedTable.insert]

/-- The revoked identifiers ascend strictly and are no more than their array holds. -/
structure AuthorityState.Ascending (s : AuthorityState) : Prop where
  sorted : SortedTable.Sorted BitVec.toNat s.revokedIds
  bounded : s.revokedIds.length ≤ authorityMaxRevoked

omit [Primitives] in
/-- The scan for a revoked identifier sees all of them. -/
theorem AuthorityState.Ascending.isRevoked_iff {s : AuthorityState} (hs : s.Ascending)
    {id : Octets 32} : authorityStateIsRevoked s id = true ↔ id ∈ s.revokedIds := by
  simp only [authorityStateIsRevoked, List.take_of_length_le hs.bounded, decide_eq_true_eq]

/-- What a valid revocation says of its grant. -/
structure RevokedBy (revocation grant : Bytes) (provider : HashProvider) : Prop where
  id : authorityGrantId grant provider = .ok (octetsAt revocation 33 32)
  issuer : octetsAt revocation 1 32 = octetsAt grant 1 32

theorem authorityRevocationValidate_eq_valid {revocation grant : Bytes}
    {roots : List (Octets 32)} {provider : HashProvider}
    (h : (authorityRevocationValidate revocation grant roots provider).1 = .valid) :
    authorityRevocationValidate revocation grant roots provider =
        (.valid, some (octetsAt revocation 33 32)) ∧
      RevokedBy revocation grant provider := by
  simp only [authorityRevocationValidate] at h ⊢
  split at h
  · simp at h
  next hshape =>
  rw [if_neg hshape]
  split at h
  · simp at h
  · simp at h
  split at h
  · simp at h
  next id hid =>
  split at h
  · simp at h
  next hnonzero =>
  split at h
  · simp at h
  next hissuer =>
  split at h
  · simp at h
  next hnamed =>
  split at h
  · simp at h
  next statement hstatement =>
  obtain rfl := not_not.mp hnamed
  refine ⟨?_, hid, not_not.mp hissuer⟩
  simp only [if_neg hnonzero, if_neg hissuer, if_neg hnamed]
  exact Prod.ext h rfl

/-- Applying a valid revocation keeps the revoked identifiers and adds its own. -/
theorem authorityStateApply_eq_valid {s s' : AuthorityState} {revocation grant : Bytes}
    {roots : List (Octets 32)} {provider : HashProvider}
    (h : authorityStateApply s revocation grant roots provider = (.valid, s')) :
    octetsAt revocation 33 32 ∈ s.revokedIds ∧ s' = s ∨
      octetsAt revocation 33 32 ∉ s.revokedIds ∧ s.revokedIds.length < authorityMaxRevoked ∧
        s' = ⟨insertRevoked (octetsAt revocation 33 32) s.revokedIds⟩ := by
  simp only [authorityStateApply] at h
  split at h
  · simp at h
  next hbounded =>
  split at h
  · next id hvalidate =>
      obtain ⟨hvalid, -⟩ := authorityRevocationValidate_eq_valid (congrArg Prod.fst hvalidate)
      obtain ⟨-, hid⟩ := Prod.mk.inj (hvalidate.symm.trans hvalid)
      obtain rfl := Option.some.inj hid
      split at h
      · next hmem => exact .inl ⟨hmem, (Prod.mk.inj h).2.symm⟩
      next hnew =>
      split at h
      · simp at h
      next hfull => exact .inr ⟨hnew, by omega, (Prod.mk.inj h).2.symm⟩
  · next result _ hne hvalidate =>
      obtain rfl := (Prod.mk.inj h).1
      obtain ⟨hvalid, -⟩ := authorityRevocationValidate_eq_valid (congrArg Prod.fst hvalidate)
      exact absurd (Prod.mk.inj (hvalidate.symm.trans hvalid)).2 (hne _ rfl)

/-! ## Accepted grants and revocations -/

/-- The issuer and the evidence of a grant, which its statement is made of. -/
def grantScope (grant : Bytes) : Octets 32 × Bytes :=
  (octetsAt grant 1 32, BigEndian.field grant 33 authorityEvidenceSize)

omit [Primitives] in
/-- What an accepted grant does: it consumes the replay identifier of its scope. -/
theorem applyGrant_fresh [Primitives] {s s' : LifecycleState} {record : Bytes}
    {roots : List (Octets 32)} {provider : HashProvider}
    (h : applyGrant s record roots provider = (.ok, s')) :
    ∃ statement nonce,
      authorityGrantStatement (grantScope record).1 (grantScope record).2 = some statement ∧
      lifecycleReplayNonce .authorityGrant statement provider = .ok nonce ∧
      ⟨(grantScope record).1, nonce⟩ ∉ s.replay.consumed ∧
      s'.replay.consumed = s.replay.consumed ++ [⟨(grantScope record).1, nonce⟩] ∧
      s'.grants = s.grants ++ [record] ∧ s'.authority = s.authority := by
  simp only [applyGrant] at h
  split at h
  · simp at h
  split at h
  · simp at h
  next statement hstatement =>
  split at h
  · simp at h
  split at h
  · next hconsume =>
      obtain ⟨nonce, hnonce, hfresh, rfl⟩ := lifecycleConsume_fresh hconsume
      obtain rfl := (Prod.mk.inj h).2
      exact ⟨statement, nonce, hstatement, hnonce, hfresh, rfl, rfl, rfl⟩
  · next hne _ => exact absurd (Prod.mk.inj h).1 hne

/-- What an accepted revocation does: it names an accepted grant of its issuer, and its
identifier joins the revoked ones. -/
theorem applyRevoke_cases {s s' : LifecycleState} {record : Bytes} {roots : List (Octets 32)}
    {provider : HashProvider} (h : applyRevoke s record roots provider = (.ok, s')) :
    (∃ grant ∈ s.grants, RevokedBy record grant provider) ∧ s'.grants = s.grants ∧
      (∃ id, s'.replay.consumed = s.replay.consumed ++ [id]) ∧
      (octetsAt record 33 32 ∈ s.authority.revokedIds ∧ s'.authority = s.authority ∨
        octetsAt record 33 32 ∉ s.authority.revokedIds ∧
          s.authority.revokedIds.length < authorityMaxRevoked ∧
          s'.authority = ⟨insertRevoked (octetsAt record 33 32) s.authority.revokedIds⟩) := by
  simp only [applyRevoke] at h
  split at h
  · simp at h
  split at h
  · simp at h
  next grant hgrant =>
  split at h
  · simp at h
  split at h
  · simp at h
  next hvalidate =>
  obtain ⟨-, hrevoked⟩ := authorityRevocationValidate_eq_valid (not_not.mp hvalidate)
  split at h
  · simp at h
  split at h
  · next hconsume =>
      obtain ⟨id, rfl⟩ := lifecycleConsume_eq_ok hconsume
      obtain ⟨hresult, rfl⟩ := Prod.mk.inj h
      have hvalid : (authorityStateApply s.authority record grant roots provider).1 = .valid := by
        cases hmap : (authorityStateApply s.authority record grant roots provider).1 with
        | valid => rfl
        | invalid => simp [hmap, mapStatementResult] at hresult
        | malformed => simp [hmap, mapStatementResult] at hresult
      exact ⟨⟨grant, List.mem_of_find?_eq_some hgrant, hrevoked⟩, rfl, ⟨id, rfl⟩,
        authorityStateApply_eq_valid (Prod.ext hvalid rfl)⟩
  · next hne _ => exact absurd (Prod.mk.inj h).1 hne

/-- The grants have distinct scopes, whose replay identifiers are consumed, and the
revoked identifiers ascend. -/
structure LifecycleState.Revocable (s : LifecycleState) (provider : HashProvider) : Prop where
  replayed : ∀ grant ∈ s.grants, ∃ statement nonce,
    authorityGrantStatement (grantScope grant).1 (grantScope grant).2 = some statement ∧
      lifecycleReplayNonce .authorityGrant statement provider = .ok nonce ∧
      ⟨(grantScope grant).1, nonce⟩ ∈ s.replay.consumed
  distinct : (s.grants.map grantScope).Nodup
  ascending : s.authority.Ascending

omit [Primitives] in
/-- Transactions that only consume identifiers keep the grants revocable. -/
theorem LifecycleState.Revocable.consumed {s s' : LifecycleState} {provider : HashProvider}
    (hs : s.Revocable provider) (hgrants : s'.grants = s.grants)
    (hauthority : s'.authority.Ascending) (hreplay : s.replay.consumed ⊆ s'.replay.consumed) :
    s'.Revocable provider where
  replayed grant hgrant := by
    obtain ⟨statement, nonce, hstatement, hnonce, hmem⟩ := hs.replayed grant (hgrants ▸ hgrant)
    exact ⟨statement, nonce, hstatement, hnonce, hreplay hmem⟩
  distinct := hgrants ▸ hs.distinct
  ascending := hauthority

/-- An accepted grant has a scope of its own: a grant of the same scope would have
consumed the same replay identifier. -/
theorem LifecycleState.Revocable.grant {s s' : LifecycleState} {record : Bytes}
    {roots : List (Octets 32)} {provider : HashProvider} (hs : s.Revocable provider)
    (h : applyGrant s record roots provider = (.ok, s')) : s'.Revocable provider := by
  obtain ⟨statement, nonce, hstatement, hnonce, hfresh, hconsumed, hgrants, hauthority⟩ :=
    applyGrant_fresh h
  have hnew : grantScope record ∉ s.grants.map grantScope := by
    intro hmem
    obtain ⟨grant, hgrant, hscope⟩ := List.mem_map.mp hmem
    obtain ⟨statement', nonce', hstatement', hnonce', hreplayed⟩ := hs.replayed grant hgrant
    rw [hscope] at hstatement' hreplayed
    obtain rfl := Option.some.inj (hstatement.symm.trans hstatement')
    obtain rfl := Except.ok.inj (hnonce.symm.trans hnonce')
    exact hfresh hreplayed
  constructor
  · intro grant hgrant
    rw [hgrants] at hgrant
    rcases List.mem_append.mp hgrant with hold | hrecord
    · obtain ⟨statement', nonce', hstatement', hnonce', hmem⟩ := hs.replayed grant hold
      exact ⟨statement', nonce', hstatement', hnonce', by simp [hconsumed, hmem]⟩
    · obtain rfl := List.mem_singleton.mp hrecord
      exact ⟨statement, nonce, hstatement, hnonce, by simp [hconsumed]⟩
  · rw [hgrants, List.map_append, List.map_singleton]
    exact List.nodup_append'.mpr ⟨hs.distinct, List.nodup_singleton _,
      List.disjoint_singleton.mpr hnew⟩
  · exact hauthority ▸ hs.ascending

theorem LifecycleState.Revocable.revoke {s s' : LifecycleState} {record : Bytes}
    {roots : List (Octets 32)} {provider : HashProvider} (hs : s.Revocable provider)
    (h : applyRevoke s record roots provider = (.ok, s')) : s'.Revocable provider := by
  obtain ⟨-, hgrants, ⟨id, hconsumed⟩, hrevoked⟩ := applyRevoke_cases h
  apply hs.consumed hgrants
  · rcases hrevoked with ⟨-, hsame⟩ | ⟨hnew, hroom, hinsert⟩
    · exact hsame ▸ hs.ascending
    · rw [hinsert, insertRevoked_eq_insert hs.ascending.sorted hnew]
      constructor
      · apply hs.ascending.sorted.insert
        intro x rest hstop heq
        have hx : x ∈ s.authority.revokedIds :=
          (List.dropWhile_sublist _).subset (hstop ▸ List.mem_cons_self)
        exact hnew (BitVec.eq_of_toNat_eq heq ▸ hx)
      · rw [SortedTable.length_insert]
        exact hroom
  · rw [hconsumed]
    exact List.subset_append_left _ _

theorem revocable_kept (c : ChainContext) :
    LifecycleKept c fun s => s.Revocable c.hashProvider where
  rebind _ _ hs := ⟨hs.replayed, hs.distinct, hs.ascending⟩
  apply {s s' tx} h hs := by
    simp only [lifecycleApplyTransaction] at h
    split at h
    · exact hs.grant h
    · exact hs.revoke h
    · obtain ⟨rotation, id, rfl⟩ := applyRotate_eq_ok h
      exact hs.consumed rfl hs.ascending (List.subset_append_left _ _)
    · split at h
      · cases (Prod.mk.inj h).1
      · obtain ⟨id, -, -, rfl⟩ := consumeReplayId_eq_ok h
        exact hs.consumed rfl hs.ascending (List.subset_append_left _ _)
    · cases (Prod.mk.inj h).1

/-! ## Revocations of a history -/

/-- A grant of a scope is in force: it is accepted and its identifier is not revoked. -/
def LifecycleState.Grants (s : LifecycleState) (provider : HashProvider)
    (scope : Octets 32 × Bytes) : Prop :=
  ∃ grant ∈ s.grants, grantScope grant = scope ∧
    ¬ ∃ id, authorityGrantId grant provider = .ok id ∧
      authorityStateIsRevoked s.authority id = true

theorem lifecycleApplyTransaction_revokedIds {s s' : LifecycleState} {tx : Transaction}
    {roots : List (Octets 32)} {provider : HashProvider}
    (h : lifecycleApplyTransaction s tx roots provider = (.ok, s')) :
    s.authority.revokedIds ⊆ s'.authority.revokedIds := by
  simp only [lifecycleApplyTransaction] at h
  split at h
  · obtain ⟨_, _, -, -, -, -, -, hauthority⟩ := applyGrant_fresh h
    exact hauthority ▸ List.Subset.refl _
  · obtain ⟨-, -, -, ⟨-, hsame⟩ | ⟨-, -, hinsert⟩⟩ := applyRevoke_cases h
    · exact hsame ▸ List.Subset.refl _
    · intro id hid
      rw [hinsert]
      exact mem_insertRevoked.mpr (.inr hid)
  · obtain ⟨rotation, id, rfl⟩ := applyRotate_eq_ok h
    exact List.Subset.refl _
  · split at h
    · cases (Prod.mk.inj h).1
    · obtain ⟨id, -, -, rfl⟩ := consumeReplayId_eq_ok h
      exact List.Subset.refl _
  · cases (Prod.mk.inj h).1

theorem granted_kept (c : ChainContext) (grant : Bytes) :
    LifecycleKept c fun s => grant ∈ s.grants where
  rebind _ _ hs := hs
  apply h hs := by
    rw [(lifecycleApplyTransaction_eq_ok h).grants]
    exact List.mem_append_left _ hs

/-- The grant a revocation names is accepted, and its identifier revoked. -/
def LifecycleState.Revoked (s : LifecycleState) (revocation : Bytes) (provider : HashProvider) :
    Prop :=
  (∃ grant ∈ s.grants, RevokedBy revocation grant provider) ∧
    octetsAt revocation 33 32 ∈ s.authority.revokedIds

theorem revoked_kept (c : ChainContext) (revocation : Bytes) :
    LifecycleKept c fun s => s.Revoked revocation c.hashProvider where
  rebind _ _ hs := hs
  apply h hs := by
    obtain ⟨⟨grant, hgrant, hrevoked⟩, hid⟩ := hs
    exact ⟨⟨grant, (granted_kept c grant).apply h hgrant, hrevoked⟩,
      lifecycleApplyTransaction_revokedIds h hid⟩

/-- An accepted revocation revokes its grant. -/
theorem lifecycleApplyTransaction_revoked {tx : Transaction} (htype : tx.type = .authorityRevoke)
    {roots : List (Octets 32)} {provider : HashProvider} (s s' : LifecycleState)
    (h : lifecycleApplyTransaction s tx roots provider = (.ok, s')) :
    s'.Revoked tx.record provider := by
  simp only [lifecycleApplyTransaction, htype] at h
  obtain ⟨⟨grant, hgrant, hrevoked⟩, hgrants, -, hids⟩ := applyRevoke_cases h
  refine ⟨⟨grant, hgrants ▸ hgrant, hrevoked⟩, ?_⟩
  rcases hids with ⟨hmem, hsame⟩ | ⟨-, -, hinsert⟩
  · exact hsame ▸ hmem
  · rw [hinsert]
    exact mem_insertRevoked.mpr (.inl rfl)

theorem Reaches.revocable {c : ChainContext} {blocks : List Bytes} {s : ChainState}
    (h : Reaches c blocks s) : s.lifecycle.Revocable c.hashProvider := by
  refine (revocable_kept c).reaches ?_ h
  have hempty : (lifecycleNew c).grants = [] ∧ (lifecycleNew c).authority = ⟨[]⟩ := by
    simp only [lifecycleNew, lifecycleSetInitialIdentities]
    split <;> exact ⟨rfl, rfl⟩
  obtain ⟨hgrants, hauthority⟩ := hempty
  refine ⟨by simp [hgrants], by simp [hgrants], ?_⟩
  rw [hauthority]
  exact ⟨List.Pairwise.nil, Nat.zero_le _⟩

/-- Once a revocation of a grant is accepted, no later state has a grant of its issuer
and evidence in force; the revoked identifiers ascend strictly. -/
theorem revocation_permanent {c : ChainContext} {past rest : List Bytes} {t s : ChainState}
    (hpast : Accepts c past t) (h : Accepts c (past ++ rest) s) :
    s.lifecycle.authority.revokedIds.Pairwise (· < ·) ∧
      ∀ revocation ∈ historyTransactions past, revocation.type = .authorityRevoke →
        (∃ grant ∈ t.lifecycle.grants, RevokedBy revocation.record grant c.hashProvider) ∧
        ∀ grant ∈ t.lifecycle.grants, RevokedBy revocation.record grant c.hashProvider →
          ¬ s.lifecycle.Grants c.hashProvider (grantScope grant) := by
  obtain ⟨-, hpast⟩ := accepts_iff.mp hpast
  obtain ⟨-, h⟩ := accepts_iff.mp h
  have hs := h.revocable
  refine ⟨hs.ascending.sorted.imp BitVec.lt_def.mpr, fun revocation hin htype => ?_⟩
  have hlifecycle : revocation.type.isLifecycle = true := by
    rw [htype]
    rfl
  obtain ⟨hgrant, hid⟩ := (revoked_kept c revocation.record).reaches_of_mem hlifecycle
    (by simp [htype]) (lifecycleApplyTransaction_revoked htype) hin hpast
  refine ⟨hgrant, fun grant hmem hrevoked => ?_⟩
  have hkept := (granted_kept c grant).reaches_from hpast h hmem
  have hids := ((revoked_kept c revocation.record).reaches_from hpast h ⟨hgrant, hid⟩).2
  rintro ⟨grant', hmem', hscope, hforce⟩
  -- No two accepted grants have one scope, so this is the revoked grant itself.
  obtain rfl := List.inj_on_of_nodup_map hs.distinct hmem' hkept hscope
  exact hforce ⟨_, hrevoked.id, hs.ascending.isRevoked_iff.mpr hids⟩

end

section Sample

/-! ## A sample revocation -/

namespace Sample

/-- SHA-256 of what validating the sample hashes, by residues modulo `2 ^ 61 - 1`. -/
def authorityDigests : List (ℕ × ℕ) :=
  [(0x254de271125ea2b,
      0x61acce20d0ac843a1b7a18c96b4378fa7a397d78db791413fe33b6e756fbd832),
   (0x6f265ff9647741f,
      0xca21dc7e4978aad83d9c934800e796e13dfa04a4d7e300476eab72c18384520f),
   (0x1c1b112fcaeb56a9,
      0x2735c888cef9c0887fc6f1a53fff6532f58c29aefe241c2b4b3d9e4eee1977b8),
   (0x89c181a712e668d,
      0xfad24c285f7c39a267c3d1ae493572b99b7d2521ccbed3bf69070c8da4ffae31),
   (0x154579d57a1ff8f2,
      0x009e2aa6367b90bc2e6ab3e49951939ac251cd1bf4b0da407bb262ae0be416d7),
   (0x1853a0d82add44e2,
      0x0ad34db9808e7f6c0748e327880e06c28a560c6765a505e173ff18213276e049),
   (0xdf9467dd082ea90,
      0xa0ae880a738e2938d894bbd5a9fa509319fd7072f9eff2cec475d8b91d866a8b),
   (0x67de30f19c1f64b,
      0x416548088622521dc8b9c24dece61097a441a13f94f9be0ed2f605142356b4ca),
   (0x18f5d4cc1e61965a,
      0x19b1924f2a09642103918a990ac6f1b571195984038c47b0c9b0398d8d908ebb),
   (0xe72b390d2a6f362,
      0x074e21226d0930e0f01c0f456752e25c9670232d36efbcd9b3d4a46a6ac7de8e),
   (0x3fff01912f37d2d,
      0xab588089466220dd76b50ae60420fbb61afef6ff28c0e64e09f777ac4ba02154),
   (0x2c53a33b733eebc,
      0x09f6120282ce38f0f8adf508244664e205a3932ca9ded319b96379dba51f7f48),
   (0x1c650c3ea2c5934,
      0x038dff5191e9472357224f05f1f4864b83be88aedfdea80fc90952a9cf189214),
   (0x2632f130aa75f67,
      0x393a81ae995735ed55fd5c6c11e640698ec0cb030903f265c0a10c7cc858e60f),
   (0x17539d79378354ee,
      0x3c16ff4675cbb0edbc58df665eb077e6396937e25710a346808ac2d406a2490b),
   (0x1f52044b01eafc42,
      0x006ae250aa806d9ed864b4d8b5ceb3f365431ef13f498d50f26003d0a1cd95da),
   (0x529c9448b22cea5,
      0x036005118be44873ffa23bdbf1ba01b5be0b65fa088ec743a976bbec7e616b15)]

/-- A genesis root. -/
def root : Octets 32 :=
  0x0c702ba94983fdc306d6d206fe01bddc3796093aae1bd525314d7246ddeed91c

/-- The subject of its grant. -/
def subject : Octets 32 :=
  0x63127b00495991c1678e1b3045ff9d1730e2f7b561ed3f180bf2528fa3b7270a

/-- The evidence that the subject may publish records of class one. -/
def publishEvidence : Bytes :=
  [1] ++ octetBytes subject ++
    octetBytes (0x0161acce20d0ac843a1b7a18c96b4378fa7a397d78db791413fe33b6e756fbd8 : Octets 32) ++
    octetBytes (0x01ca21dc7e4978aad83d9c934800e796e13dfa04a4d7e300476eab72c1838452 : Octets 32)

/-- The identifier of the grant. -/
def grantId : Octets 32 :=
  0xfad24c285f7c39a267c3d1ae493572b99b7d2521ccbed3bf69070c8da4ffae31

/-- What the root signs to grant. -/
def grantStatement : Bytes :=
  cString "STN-CHAIN:AUTHORITY:GRANT:1" ++ [1] ++ octetBytes root ++ publishEvidence

/-- What the root signs to revoke. -/
def revocationStatement : Bytes :=
  cString "STN-CHAIN:AUTHORITY:REVOKE:1" ++ [1] ++ octetBytes root ++ octetBytes grantId

/-- The root's signature of the grant. -/
def grantSignature : Octets 64 :=
  BitVec.ofNat 512 (0x962d9febd2ed2d5959e1b53cf6fd2f4f493e464f0e26ad750f54dec13b5903eb * 2 ^ 256 +
    0xbf502b5559ee966c325d1cedcbd2b69e7b8889549aa5a2af8192dd581936630e)

/-- The root's signature of the revocation. -/
def revocationSignature : Octets 64 :=
  BitVec.ofNat 512 (0x264e2c0b13c6c76ee6f7a2ebe2b7676be2663bcfe5f1071b6a1cb0b6cd855401 * 2 ^ 256 +
    0x13dbf7cec0466184dd0cc5003990cabc4effa292bd70bfedf8b0190229914401)

/-- A record of the subject, without its signature. -/
def unsignedRecord (nonce : UInt8) : Bytes :=
  [0x53, 0x54, 0x4e, 0x52] ++ wireWrite 2 1 ++ wireWrite 2 1 ++ List.replicate 32 0x11 ++
    octetBytes subject ++ List.replicate 32 nonce ++ wireWrite 8 1000 ++ wireWrite 4 64 ++
    wireWrite 2 1 ++ wireWrite 8 1000 ++ [5] ++ wireWrite 2 4 ++ ascii "scan" ++
    wireWrite 2 7 ++ ascii "host.io" ++ wireWrite 2 4 ++ ascii "port" ++ List.replicate 32 0x22

/-- The subject's signature of its first record. -/
def sixthSignature : Octets 64 :=
  BitVec.ofNat 512 (0xc825c183dda3c3492d4140101da8c8da42fd54d2605d0c5bc27e4b24aa2468e9 * 2 ^ 256 +
    0x545729321c23a24b60a63761eee1e7912f0d3759fe33b76e5609ba5ae0245400)

/-- The subject's signature of its second record. -/
def eighthSignature : Octets 64 :=
  BitVec.ofNat 512 (0x8f8b8fac581bfbf943d1d5b470ba4467ae7ec0496d9ee250209e0368b4537158 * 2 ^ 256 +
    0x303f433a5aa97d79e7a4135d3ded7ca86b8a3697e92b285c708d87334d1a0003)

/-- SHA-256 and Ed25519 as far as the sample asks for them. -/
@[reducible] def granting : Primitives where
  sha256 domain bytes := .ok (BitVec.ofNat 256 (((authorityDigests ++ digests).lookup
    (BigEndian.read (domain ++ bytes) % (2 ^ 61 - 1))).getD 1))
  ed25519Verify statement key signature := decide (
    (statement, key, signature) ∈
      [(grantStatement, root, grantSignature), (revocationStatement, root, revocationSignature),
        (identityStatement (unsignedRecord 6), subject, sixthSignature),
        (identityStatement (unsignedRecord 8), subject, eighthSignature)])

/-- The record of the grant. -/
def grantRecord : Bytes :=
  [1] ++ octetBytes root ++ publishEvidence ++ octetBytes grantSignature

/-- The record of the revocation. -/
def revocationRecord : Bytes :=
  [1] ++ octetBytes root ++ octetBytes grantId ++ octetBytes revocationSignature

/-- A publication of the subject. -/
def published (nonce : UInt8) (signature : Octets 64) : Bytes :=
  transaction .publication (unsignedRecord nonce ++ octetBytes signature)

/-- A genesis block with the grant. -/
def grantingGenesis : Bytes :=
  block 0 0 0x416548088622521dc8b9c24dece61097a441a13f94f9be0ed2f605142356b4ca 29
    [transaction .authorityGrant grantRecord]

/-- Two publications under the grant, and its revocation. -/
def revoking : Bytes :=
  block 0x074e21226d0930e0f01c0f456752e25c9670232d36efbcd9b3d4a46a6ac7de8e 1
    0x09f6120282ce38f0f8adf508244664e205a3932ca9ded319b96379dba51f7f48 9
    [published 6 sixthSignature, published 8 eighthSignature,
      transaction .authorityRevoke revocationRecord]

/-- An empty block after the revocation. -/
def afterwards : Bytes :=
  block 0x006ae250aa806d9ed864b4d8b5ceb3f365431ef13f498d50f26003d0a1cd95da 2 emptyCommitment 31 []

/-- The context of the grant. -/
def grantingContext : ChainContext :=
  { context with
    genesisBytes := grantingGenesis
    genesisAuthorityRoots := [root]
    hashProvider := ⟨some granting.sha256⟩ }

end Sample

attribute [local instance] Sample.granting

open Sample

theorem accepts_revoking :
    ∃ s, Accepts grantingContext [grantingGenesis, revoking, afterwards] s :=
  accepts_of_isSome (by decide +kernel)

theorem sample_revocation_permanent : ∃ s grant,
    Accepts grantingContext ([grantingGenesis, revoking] ++ [afterwards]) s ∧
      RevokedBy revocationRecord grant grantingContext.hashProvider ∧
      ¬ s.lifecycle.Grants grantingContext.hashProvider (grantScope grant) := by
  obtain ⟨s, hs⟩ := accepts_revoking
  have hall : Accepts grantingContext ([grantingGenesis, revoking] ++ [afterwards]) s := hs
  obtain ⟨t, ht⟩ := hall.front (List.cons_ne_nil _ _)
  have hin : (⟨1, .authorityRevoke, revocationRecord⟩ : Transaction) ∈
      historyTransactions [grantingGenesis, revoking] := by
    decide +kernel
  obtain ⟨-, hrevocations⟩ := revocation_permanent ht hall
  obtain ⟨⟨grant, hgrant, hrevoked⟩, hpermanent⟩ := hrevocations _ hin rfl
  exact ⟨s, grant, hall, hrevoked, hpermanent grant hgrant hrevoked⟩

end Sample

end StnChain
