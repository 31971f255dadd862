import StnChain.Chain.LifecycleRun
import StnChain.Chain.Shares
import StnChain.Pending.Scan

/-!
# Inclusion scans of accepted histories

Reconstruction has checked everything `stn_pending_inclusions` decodes again, except
that the scan has no branch for block-compensation evidence.  So it fails on exactly
the accepted histories that carry such evidence.
-/

namespace StnChain

variable [Primitives]

/-- The statement of a grant, revocation or rotation is formed and has a replay nonce. -/
def Transaction.Signs (provider : HashProvider) (tx : Transaction) : Prop :=
  ∃ statement nonce, lifecycleStatement tx.type tx.record = some statement ∧
    lifecycleReplayNonce tx.type statement provider = .ok nonce

omit [Primitives] in
theorem signs_of_consume {s s' : LifecycleState} {signer : Octets 32} {type : TransactionType}
    {statement : Bytes} {provider : HashProvider} {tx : Transaction} (htype : tx.type = type)
    (hstatement : lifecycleStatement type tx.record = some statement)
    (h : lifecycleConsume s signer type statement provider = (.ok, s')) : tx.Signs provider := by
  subst htype
  simp only [lifecycleConsume] at h
  split at h
  · next result hnonce =>
      obtain rfl := (Prod.mk.inj h).1
      exact absurd hnonce lifecycleReplayNonce_ne_ok
  · next nonce hnonce => exact ⟨statement, nonce, hstatement, hnonce⟩

/-- A grant, revocation or rotation that applies has a statement with a nonce. -/
theorem lifecycleApplyTransaction_signs {s s' : LifecycleState} {tx : Transaction}
    {roots : List (Octets 32)} {provider : HashProvider}
    (h : lifecycleApplyTransaction s tx roots provider = (.ok, s'))
    (htype : tx.type = .authorityGrant ∨ tx.type = .authorityRevoke ∨
      tx.type = .identityRotate) : tx.Signs provider := by
  rcases htype with htype | htype | htype
  all_goals simp only [lifecycleApplyTransaction, htype, applyGrant, applyRevoke, applyRotate] at h
  · split at h
    · simp at h
    split at h
    · simp at h
    next statement hstatement =>
    split at h
    · simp at h
    split at h
    · next hconsume => exact signs_of_consume htype hstatement hconsume
    · next hne _ => exact absurd (Prod.mk.inj h).1 hne
  · split at h
    · simp at h
    split at h
    · simp at h
    split at h
    · simp at h
    split at h
    · simp at h
    split at h
    · simp at h
    next statement hstatement =>
    split at h
    · next hconsume => exact signs_of_consume htype hstatement hconsume
    · next hne _ => exact absurd (Prod.mk.inj h).1 hne
  · split at h
    · simp at h
    split at h
    · simp at h
    split at h
    · simp at h
    split at h
    · simp at h
    split at h
    · simp at h
    next statement hstatement =>
    split at h
    · next hconsume => exact signs_of_consume htype hstatement hconsume
    · next hne _ => exact absurd (Prod.mk.inj h).1 hne

variable {c : ChainContext} {blocks : List Bytes} {s : ChainState}

/-- Every grant, revocation or rotation of an accepted history was applied. -/
theorem Reaches.signs_of_mem (h : Reaches c blocks s) {tx : Transaction}
    (htx : tx ∈ historyTransactions blocks)
    (htype : tx.type = .authorityGrant ∨ tx.type = .authorityRevoke ∨
      tx.type = .identityRotate) : tx.Signs c.hashProvider := by
  have hlifecycle : tx.type.isLifecycle = true ∧ tx.type ≠ .publication ∧
      tx.type ≠ .blockCompensationEvidence ∧ tx.issuance issuanceReasonBlock = none := by
    rcases htype with htype | htype | htype <;>
      simp [htype, TransactionType.isLifecycle, Transaction.issuance]
  obtain ⟨hkind, hpublication, hevidence, hissuance⟩ := hlifecycle
  obtain ⟨bytes, hbytes, hcarried⟩ := List.mem_flatMap.mp htx
  obtain ⟨t, ht, hdecode⟩ := mem_decodedTransactions.mp hcarried
  obtain ⟨past, rest, rfl⟩ := List.append_of_mem hbytes
  obtain ⟨pre, post, hblock⟩ := List.append_of_mem ht
  obtain ⟨before, after, hround⟩ := h.roundAt hblock hdecode hevidence hissuance
  obtain ⟨prior, b, flags, candidate, _, _, _, hprepared, -, hstep, -, -⟩ := hround
  rw [blockTransactions_of_decode hprepared.decode] at hcarried
  have hflag := hprepared.hasLifecycle hcarried hkind fun heq => absurd heq hpublication
  cases stepOf_of_applyTransaction hstep with
  | lifecycle _ happly =>
      rcases applyLifecycle_eq_ok happly with ⟨-, hskipped | ⟨heq, -⟩⟩ | ⟨-, -, happlied⟩
      · simp [candidateEnv, hflag] at hskipped
      · exact absurd heq hpublication
      · exact lifecycleApplyTransaction_signs happlied htype
  | issuance heq _ | transfer heq _ | destination heq _ | contract heq _ | share heq _ =>
      simp [heq, TransactionType.isLifecycle] at hkind

theorem Reaches.scannable_iff (h : Reaches c blocks s) {tx : Transaction}
    (htx : tx ∈ historyTransactions blocks) :
    Scannable c.hashProvider tx ↔ tx.type ≠ .blockCompensationEvidence := by
  constructor
  · exact fun hscannable => hscannable.evidence
  · intro hevidence
    refine ⟨hevidence, fun htype hold => ?_, fun htype => h.signs_of_mem htx htype⟩
    obtain ⟨share, -, -, -, -, hshare, -⟩ := h.share_transaction_checked htx htype
    simp [shareDecode, shareCanonicalSize, hold] at hshare

theorem transactionId_of_distinctIds {provider : HashProvider} {seen : List (Octets 32)}
    {ts : List Bytes} (h : distinctIds provider seen ts = .ok ()) :
    ∀ t ∈ ts, ∃ id, transactionId t provider = .ok id := by
  induction ts generalizing seen with
  | nil => simp
  | cons t ts ih =>
      simp only [distinctIds] at h
      split at h
      · simp at h
      next id hid =>
      split at h
      · simp at h
      intro t' ht'
      rcases List.mem_cons.mp ht' with rfl | ht'
      · exact ⟨id, hid⟩
      · exact ih h t' ht'

/-- Every transaction of an accepted history has an identifier. -/
theorem Reaches.transactionId_of_mem (h : Reaches c blocks s) {t : Bytes}
    (ht : t ∈ historyOctets blocks) : ∃ id, transactionId t c.hashProvider = .ok id := by
  obtain ⟨bytes, hbytes, hcarried⟩ := List.mem_flatMap.mp ht
  obtain ⟨past, rest, rfl⟩ := List.append_of_mem hbytes
  obtain ⟨prior, s', -, hstep, -⟩ := h.step_at
  obtain ⟨b, flags, candidate, hprepared, -⟩ := reconstructStep_eq_ok_iff.mp hstep
  have hintegrity := hprepared.integrity
  rw [blockTransactions_of_decode hprepared.decode] at hcarried
  simp only [blockCheckIntegrity, hprepared.decode] at hintegrity
  split at hintegrity
  · simp at hintegrity
  · next hids => exact transactionId_of_distinctIds hids t hcarried

/-- The inclusion scan of an accepted history succeeds exactly when the history carries no
block-compensation evidence. -/
theorem Reaches.exists_inclusions_iff (h : Reaches c blocks s) (pool : Pending c.hashProvider) :
    (∃ mask, pendingInclusions pool blocks = .ok mask) ↔
      ∀ tx ∈ historyTransactions blocks, tx.type ≠ .blockCompensationEvidence := by
  have hdecodes : ∀ bytes ∈ blocks, ∃ b, blockDecode bytes = .ok b := fun bytes => h.decode_of_mem
  rw [pendingInclusions, pendingScan, markBlocks_of_decode hdecodes, Marking.exists_scan_iff]
  have hjudge {t : Bytes} {tx : Transaction} (ht : t ∈ historyOctets blocks)
      (hdecode : transactionDecode t = .ok tx) :
      (∃ p, scanJudge false (some c.hashProvider) t = .ok p) ↔
        tx.type ≠ .blockCompensationEvidence := by
    obtain ⟨id, hid⟩ := h.transactionId_of_mem ht
    rw [← h.scannable_iff (mem_historyTransactions.mpr ⟨t, ht, hdecode⟩),
      ← scanKey_eq_ok_iff hdecode]
    simp only [scanJudge, hdecode]
    cases scanKey tx (some c.hashProvider) with
    | error status => simp
    | ok key => simp [hid]
  constructor
  · intro hjudged tx htx
    obtain ⟨t, ht, hdecode⟩ := mem_historyTransactions.mp htx
    exact (hjudge ht hdecode).mp (hjudged t ht)
  · intro hplain t ht
    obtain ⟨tx, hdecode⟩ := decode_of_mem_historyOctets hdecodes ht
    exact (hjudge ht hdecode).mpr (hplain tx (mem_historyTransactions.mpr ⟨t, ht, hdecode⟩))

end StnChain
