import StnChain.Chain.Revocations
import StnChain.Pending.Identifiers
import StnChain.Pending.Inclusions
import StnChain.Rpc.NodeService

/-!
# Checking and admitting a publication

From the activation height on CHECK_INTELLIGENCE and `stn_pending_admit` put a record
before the same lifecycle check and compare its network.  The admission goes on to scan
the accepted history for the signer and nonce of the record, whatever carries them, while
the check knows only the replays that the lifecycle has consumed.
-/

namespace StnChain

section

variable [Primitives]

/-! ## The two answers -/

/-- A CHECK_INTELLIGENCE reply that reports acceptance under context. -/
def RpcReply.UnderContext (r : RpcReply) : Prop :=
  r.code = some .ok ∧ wireRead r.memory 14 2 = Acceptance.underContext.toWire

instance (r : RpcReply) : Decidable r.UnderContext :=
  inferInstanceAs (Decidable (_ ∧ _))

/-- A CHECK_INTELLIGENCE request. -/
def checkRequest (id : UInt64) (record : Bytes) : RpcMessage :=
  ⟨1, 0x1000, .ok, id, record⟩

/-- A transaction of the history carries the signer and nonce of the record. -/
def PairUsed (blocks : List Bytes) (record : Bytes) : Prop :=
  ∃ tx ∈ historyTransactions blocks, tx.type.carriesPair = true ∧
    recordPair tx.type tx.record = recordPair .publication record

/-- A history without block-compensation evidence, whose scan compares no octets with those
of a transaction of the given length. -/
structure Comparable (blocks : List Bytes) (length : ℕ) : Prop where
  evidence : ∀ tx ∈ historyTransactions blocks, tx.type ≠ .blockCompensationEvidence
  octets : ∀ t ∈ historyOctets blocks, ∀ tx, transactionDecode t = .ok tx →
    tx.type.carriesPair = false → t.length ≠ length

/-! ## The scan for replays -/

section Scan

variable {c : ChainContext} {blocks : List Bytes} {s : ChainState} {record : Bytes}
  {r : Record}

/-- What the scan makes of a transaction whose octets it does not compare. -/
theorem replay_selects_iff {probe : PendingEntry} {t : Bytes} {tx : Transaction}
    (hdecode : transactionDecode t = .ok tx) (hscannable : Scannable c.hashProvider tx)
    (hoctets : tx.type.carriesPair = false → t.length ≠ probe.transaction.length) :
    Marking.Selects (scanJudge true (some c.hashProvider)) t probe ↔
      tx.type.carriesPair = true ∧
        recordPair tx.type tx.record = some (probe.signer, probe.nonce) := by
  obtain ⟨key, hkey⟩ := (scanKey_eq_ok_iff hdecode).mpr hscannable
  simp only [Marking.Selects, scanJudge, hdecode, hkey, if_true, Except.ok.injEq, exists_eq_left']
  simp only [scanKey] at hkey
  by_cases hpair : tx.type.carriesPair = true
  · rw [if_pos hpair] at hkey
    obtain ⟨pair, hsome⟩ :=
      recordPair_isSome (transactionDecode_eq_ok hdecode).2.1 hpair hscannable.share
    rw [hsome] at hkey
    obtain rfl := Except.ok.inj hkey
    simp only [hpair, hsome, ScanKey.selects, Bool.and_eq_true, decide_eq_true_eq, true_and,
      Option.some.injEq, Prod.ext_iff]
    rw [eq_comm, @eq_comm _ probe.nonce]
  · have hplain : tx.type.carriesPair = false := Bool.not_eq_true _ ▸ hpair
    have hkind : key = .octets := by
      rw [if_neg hpair] at hkey
      split at hkey
      · split at hkey
        · cases hkey
        · exact (Except.ok.inj hkey).symm
      split at hkey
      · cases hkey
      split at hkey
      · cases hkey
      · exact (Except.ok.inj hkey).symm
    have hlength := Ne.symm (hoctets hplain)
    simp [hkind, ScanKey.selects, hlength, hplain]

/-- The scan of an accepted history marks a probe exactly when its pair is used. -/
theorem replay_scan (h : Reaches c blocks s) (hdecode : recordDecode record = .ok r)
    (probe : PendingEntry) (hsigner : probe.signer = r.signerPublicKey)
    (hnonce : probe.nonce = r.nonce)
    (hcomparable : Comparable blocks probe.transaction.length) :
    ∃ mask, markBlocks (scanJudge true (some c.hashProvider)) [probe] blocks = .ok mask ∧
      (mask.headD false = true ↔ PairUsed blocks record) := by
  have hdecodes : ∀ bytes ∈ blocks, ∃ b, blockDecode bytes = .ok b := fun bytes => h.decode_of_mem
  have hscannable {t : Bytes} {tx : Transaction} (ht : t ∈ historyOctets blocks)
      (htx : transactionDecode t = .ok tx) : Scannable c.hashProvider tx := by
    have hmem := mem_historyTransactions.mpr ⟨t, ht, htx⟩
    exact (h.scannable_iff hmem).mpr (hcomparable.evidence tx hmem)
  have hjudged : ∀ t ∈ historyOctets blocks,
      ∃ p, scanJudge true (some c.hashProvider) t = .ok p := by
    intro t ht
    obtain ⟨tx, htx⟩ := decode_of_mem_historyOctets hdecodes ht
    obtain ⟨key, hkey⟩ := (scanKey_eq_ok_iff htx).mpr (hscannable ht htx)
    exact ⟨key.selects t, by simp [scanJudge, htx, hkey]⟩
  obtain ⟨mask, hmask⟩ : ∃ mask, Marking.scan (scanJudge true (some c.hashProvider)) [probe]
      ([probe].map fun _ => false) (historyOctets blocks) = .ok mask :=
    Marking.exists_scan_iff.mpr hjudged
  obtain ⟨-, marked, rfl, hmarked⟩ := Marking.scan_eq_ok_iff.mp hmask
  refine ⟨_, (markBlocks_of_decode hdecodes).trans hmask, ?_⟩
  have hpair : recordPair .publication record = some (probe.signer, probe.nonce) := by
    simp [recordPair, hdecode, Except.toOption, hsigner, hnonce]
  simp only [List.map_cons, List.map_nil, List.headD_cons]
  rw [hmarked, PairUsed, hpair]
  constructor
  · rintro ⟨t, ht, hselects⟩
    obtain ⟨tx, htx⟩ := decode_of_mem_historyOctets hdecodes ht
    have hused := (replay_selects_iff htx (hscannable ht htx)
      (hcomparable.octets t ht tx htx)).mp hselects
    exact ⟨tx, mem_historyTransactions.mpr ⟨t, ht, htx⟩, hused⟩
  · rintro ⟨tx, hmem, hused⟩
    obtain ⟨t, ht, htx⟩ := mem_historyTransactions.mp hmem
    exact ⟨t, ht, (replay_selects_iff htx (hscannable ht htx)
      (hcomparable.octets t ht tx htx)).mpr hused⟩

end Scan

/-! ## The admission -/

section Admission

variable {c : ChainContext} {blocks : List Bytes} {s : ChainState} {record : Bytes}
  {context : Option ValidationContext}

/-- A reconstructed state has an activation height. -/
theorem Reaches.activation_ne_zero (h : Reaches c blocks s) :
    s.publicationActivationHeight ≠ 0 := by
  have hactivation := h.activation
  unfold chainPublicationActivation at hactivation
  split at hactivation
  · cases hactivation
  split at hactivation
  · next entry hentry =>
      have hmem := List.mem_of_find?_eq_some hentry
      have hall : (legacyGenesis.all fun entry => entry.2 != 0) = true := by decide
      have hne : entry.2 ≠ 0 := bne_iff_ne.mp (List.all_eq_true.mp hall entry hmem)
      exact Except.ok.inj hactivation ▸ hne
  · rw [← Except.ok.inj hactivation]
    decide

theorem productionNext_eq_true (h : Reaches c blocks s)
    (hnext : s.height = uint64Max ∨ s.height + 1 ≥ s.publicationActivationHeight) :
    productionNext s = true := by
  simp only [productionNext, Bool.and_eq_true, Bool.or_eq_true, decide_eq_true_eq]
  exact ⟨h.activation_ne_zero, hnext⟩

/-- The empty pool takes a publication whose transaction has an identifier. -/
theorem insert_publication {provider : HashProvider} {id : Octets 32}
    (hrecord : recordMatchesType .publication record = .ok ())
    (hid : transactionId (transactionBytes .publication record) provider = .ok id) :
    (PendingPool.empty.insert (transactionBytes .publication record) provider).result =
      .accepted := by
  obtain ⟨r, hr⟩ := exists_ok_of_toBool (recordMatchesType_eq_ok hrecord)
  have hsize := (recordMatchesType_size hrecord).2
  have hdecode := transactionDecode_bytes hsize hrecord
  have hentry : pendingEntry (transactionBytes .publication record) provider =
      .ok ⟨id, r.signerPublicKey, r.nonce, transactionBytes .publication record⟩ := by
    simp [pendingEntry, hdecode, pendingPair, TransactionType.carriesPair, recordPair, hr, hid,
      Except.toOption]
  have hlength : ¬ (transactionBytes .publication record).length > pendingMaxBytes := by
    have hmax : txMaxSize = 66881 := rfl
    have hbytes : pendingMaxBytes = 262144 := rfl
    rw [length_transactionBytes]
    omega
  have hroom : ¬ (transactionBytes .publication record).length >
      TalliedTable.counterSub (2 ^ 64) pendingMaxBytes 0 := by
    rwa [TalliedTable.counterSub_of_le (by norm_num [pendingMaxBytes]) (Nat.zero_le _)]
  have hplaced (e : PendingEntry) (he : e.transaction = transactionBytes .publication record) :
      (pendingLayout.place e PendingPool.empty).1 = .placed := by
    have hfull : ¬ (PendingPool.empty.rows.length ≥ pendingLayout.maxRows ∨
        pendingLayout.size e > TalliedTable.counterSub pendingLayout.modulus
          pendingLayout.maxTally PendingPool.empty.tally) := by
      rintro (hrows | hbytes)
      · exact absurd hrows (by decide)
      · exact hroom (he ▸ hbytes)
    have habsent : pendingLayout.present (pendingLayout.key e) PendingPool.empty = false := rfl
    rw [TalliedTable.Layout.place, habsent, if_neg hfull]
    rfl
  have hresult := hplaced ⟨id, r.signerPublicKey, r.nonce, transactionBytes .publication record⟩ rfl
  simp only [PendingPool.insert, hentry]
  split
  · next hplace =>
      rw [hplace] at hresult
      cases hresult
  · next hplace =>
      rw [hplace] at hresult
      cases hresult
  · rfl

/-- The check accepts what the lifecycle accepts for the network of the chain. -/
theorem publicationReport_accepts_iff {service : NodeService} :
    (publicationReport service s record).acceptance = .underContext ↔
      lifecycleCheckPublication s.lifecycle record service.chain.hashProvider = .ok ∧
        ∃ r, recordDecode record = .ok r ∧ r.networkId = s.networkId := by
  unfold publicationReport
  cases hchecked : lifecycleCheckPublication s.lifecycle record service.chain.hashProvider with
  | ok =>
      cases hdecode : recordDecode record with
      | error status => simp
      | ok r => by_cases hnetwork : r.networkId = s.networkId <;> simp [hnetwork]
  | _ => simp

/-- The admission to an empty pool, behind the checks. -/
theorem admitPublication_accepted_iff {v : StorageView} (h : Reaches c v.blocks v.state)
    (hcomparable : Comparable v.blocks (txHeaderSize + record.length))
    {report : ValidationReport} :
    (admitPublication .empty record v c.hashProvider report).result = .accepted ↔
      (∃ r, recordDecode record = .ok r ∧ r.networkId = v.state.networkId) ∧
        (∃ id, transactionId (transactionBytes .publication record) c.hashProvider = .ok id) ∧
        ¬PairUsed v.blocks record := by
  unfold admitPublication
  cases hdecode : recordDecode record with
  | error status => simp
  | ok r =>
      simp only [Except.ok.injEq, exists_eq_left']
      by_cases hnetwork : r.networkId = v.state.networkId
      · have hrecord : recordMatchesType .publication record = .ok () := by
          simp [recordMatchesType, hdecode, Except.toBool]
        have hsize := (recordMatchesType_size hrecord).2
        have hencode : transactionEncode ⟨1, .publication, record⟩ txMaxSize =
            .ok (transactionBytes .publication record) := by
          apply transactionEncode_eq_ok_iff.mpr
          refine ⟨transactionDecode_bytes hsize hrecord, ?_⟩
          rw [length_transactionBytes]
          exact hsize
        rw [if_neg (not_not.mpr hnetwork)]
        simp only [hencode, hnetwork, true_and]
        cases hid : transactionId (transactionBytes .publication record) c.hashProvider with
        | error status => simp
        | ok id =>
            obtain ⟨mask, hmask, hused⟩ := replay_scan h hdecode
              ⟨id, r.signerPublicKey, r.nonce, transactionBytes .publication record⟩
              rfl rfl (by rwa [length_transactionBytes])
            have habsent : PendingPool.empty.has id = false := rfl
            have hfresh : PendingPool.empty.hasNonce r.signerPublicKey r.nonce = false := rfl
            simp only [habsent, hfresh, Bool.false_eq_true, if_false, hmask]
            by_cases hmarked : mask.headD false = true
            · rw [if_pos hmarked]
              constructor
              · intro hreplay
                cases hreplay
              · rintro ⟨-, hunused⟩
                exact absurd (hused.mp hmarked) hunused
            · rw [if_neg hmarked]
              constructor
              · intro _
                exact ⟨⟨id, rfl⟩, fun h => hmarked (hused.mpr h)⟩
              · intro _
                exact insert_publication hrecord hid
      · simp [hnetwork]

/-- What the admission of a publication to an empty pool comes to from the activation on. -/
theorem pendingAdmit_accepted_iff {v : StorageView} (h : Reaches c v.blocks v.state)
    (hnext : v.state.height = uint64Max ∨
      v.state.height + 1 ≥ v.state.publicationActivationHeight)
    (hcomparable : Comparable v.blocks (txHeaderSize + record.length)) {service : NodeService}
    (hchain : service.chain = c) :
    (pendingAdmit .empty record context v c.hashProvider).result = .accepted ↔
      (publicationReport service v.state record).acceptance = .underContext ∧
        (∃ id, transactionId (transactionBytes .publication record) c.hashProvider = .ok id) ∧
        ¬PairUsed v.blocks record := by
  rw [publicationReport_accepts_iff, hchain]
  simp only [pendingAdmit, publicationChecks, productionNext_eq_true h hnext, if_true]
  cases hchecked : lifecycleCheckPublication v.state.lifecycle record c.hashProvider with
  | ok =>
      simp only [true_and]
      rw [admitPublication_accepted_iff h hcomparable]
  | _ => simp

/-- Whatever the history, a record that is admitted has been accepted by the check. -/
theorem pendingAdmit_reported {v : StorageView} (h : Reaches c v.blocks v.state)
    (hnext : v.state.height = uint64Max ∨
      v.state.height + 1 ≥ v.state.publicationActivationHeight) {service : NodeService}
    (hchain : service.chain = c) {pool : PendingPool}
    (hadmitted : (pendingAdmit pool record context v c.hashProvider).result = .accepted) :
    (publicationReport service v.state record).acceptance = .underContext := by
  rw [publicationReport_accepts_iff, hchain]
  simp only [pendingAdmit, publicationChecks, productionNext_eq_true h hnext, if_true] at hadmitted
  cases hchecked : lifecycleCheckPublication v.state.lifecycle record c.hashProvider with
  | ok =>
      simp only [hchecked, admitPublication] at hadmitted
      refine ⟨rfl, ?_⟩
      split at hadmitted
      · cases hadmitted
      next r hdecode =>
      split at hadmitted
      · cases hadmitted
      next hnetwork => exact ⟨r, hdecode, not_not.mp hnetwork⟩
  | _ => simp [hchecked] at hadmitted

end Admission

/-! ## The reply to the check -/

omit [Primitives] in
/-- The acceptance is the eighth field of a report. -/
theorem wireRead_acceptance (r : ValidationReport) (memory : Bytes) :
    wireRead (Buffer.writeAll memory (r.writes 0)) 14 2 = r.acceptance.toWire := by
  have hparts : Buffer.writeAll ([] ++ memory) (r.writes 0) =
      [] ++ ((r.fields.map (wireWrite 2)).flatten ++ memory.drop _) :=
    Buffer.writeAll_parts [] memory (r.fields.map (wireWrite 2)) rfl (by simp)
  have hlt : r.acceptance.toWire < 256 ^ 2 := by
    cases r.acceptance <;> decide
  rw [List.nil_append] at hparts
  rw [hparts]
  simp only [List.nil_append, ValidationReport.fields, List.map_cons, List.map_nil,
    List.flatten_cons, List.append_assoc]
  simp (disch := simp) only [wireRead_append_right, wireRead_append_left, length_wireWrite]
  exact wireRead_wireWrite hlt

variable {c : ChainContext} {v : StorageView}

/-- The check replies with the report on the state it reconstructs. -/
theorem checkReply_underContext_iff (service : NodeService)
    (haccepts : Accepts service.chain service.blocks v.state)
    (hpolicy : service.chain.powPolicy.isSome = true)
    (hnext : v.state.height = uint64Max ∨
      v.state.height + 1 ≥ v.state.publicationActivationHeight)
    (id : UInt64) (record memory : Bytes) {capacity : ℕ} (hroom : 20 ≤ capacity) :
    (nodeServiceHandle service (checkRequest id record) memory capacity).UnderContext ↔
      (publicationReport service v.state record).acceptance = .underContext := by
  have hsnapshot : nodeSnapshot service = .ok v.state := by
    have hblocks := (accepts_iff.mp haccepts).1
    have hreconstruct : chainReconstructHistory service.chain service.blocks =
        (acceptedReport service.chain, some v.state) := haccepts
    have hnone : service.chain.powPolicy.isNone = false := by
      simpa using hpolicy
    simp [nodeSnapshot, hnone, hblocks, hreconstruct, acceptedReport]
  have hreport : nodeReport service v.state record =
      .ok (publicationReport service v.state record) := by
    rw [nodeReport, if_pos hnext]
  have hreply : nodeServiceHandle service (checkRequest id record) memory capacity =
      ⟨some .ok, Buffer.writeAll memory ((publicationReport service v.state record).writes 0),
        20⟩ := by
    have hmethod : (checkRequest id record).methodOf = some .checkIntelligence := rfl
    have hpayload : (checkRequest id record).payload = record := rfl
    simp only [nodeServiceHandle, hmethod, nodeIntelligence, hsnapshot, hpayload, hreport,
      RpcReply.answer, Bool.false_eq_true, if_false, if_neg (not_lt.mpr hroom)]
  rw [hreply, RpcReply.UnderContext]
  simp only [true_and, wireRead_acceptance]
  cases (publicationReport service v.state record).acceptance <;> decide

/-- From the activation height on, admission to an empty pool accepts only records that the
check of the same history accepts.  Where the scan compares signers and nonces alone, it
accepts those of them whose transaction the provider hashes and whose signer and nonce no
accepted transaction carries. -/
theorem check_admission_agree (haccepts : Accepts c v.blocks v.state)
    (hpolicy : c.powPolicy.isSome = true)
    (hnext : v.state.height = uint64Max ∨
      v.state.height + 1 ≥ v.state.publicationActivationHeight)
    (context intelligence : Option ValidationContext) (retained : List Bytes) (id : UInt64)
    (record memory : Bytes) (capacity : ℕ) (hroom : 20 ≤ capacity) :
    let reply := nodeServiceHandle ⟨c, v.blocks, intelligence, retained⟩ (checkRequest id record)
      memory capacity
    let admission := pendingAdmit .empty record context v c.hashProvider
    (admission.result = .accepted → reply.UnderContext) ∧
      (Comparable v.blocks (txHeaderSize + record.length) →
        (admission.result = .accepted ↔ reply.UnderContext ∧
          (∃ id, transactionId (transactionBytes .publication record) c.hashProvider = .ok id) ∧
          ¬PairUsed v.blocks record)) := by
  have hreach := (accepts_iff.mp haccepts).2
  have hreply := checkReply_underContext_iff ⟨c, v.blocks, intelligence, retained⟩ haccepts
    hpolicy hnext id record memory hroom
  dsimp only
  rw [hreply]
  constructor
  · exact pendingAdmit_reported hreach hnext rfl
  · intro hcomparable
    exact pendingAdmit_accepted_iff hreach hnext hcomparable rfl

end

section Sample

namespace Sample

/-- SHA-256 of the genesis block that also carries the first record. -/
def republishedDigests : List (ℕ × ℕ) :=
  [(0xc735d58ea14c92d,
      0xcc8b7625be2e41baa7a6c4f7c6e49e4fdc398f0a91902b3a40a85e44ee8675dc),
   (0x2fd1293e559594,
      0x028b19f745941d83543497123cdf34b9a2db5bbdac2f58457db8a870d485cda7),
   (0x447b89e2aece357,
      0x899f5312cc9a228e32b2c2f3bf4806cfedc9ce37c0e87eb8d97db325a118312d)]

/-- SHA-256 and Ed25519 as far as the sample asks for them. -/
@[reducible] def republishing : Primitives where
  sha256 domain bytes := .ok (BitVec.ofNat 256
    (((republishedDigests ++ authorityDigests ++ digests).lookup
      (BigEndian.read (domain ++ bytes) % (2 ^ 61 - 1))).getD 1))
  ed25519Verify := granting.ed25519Verify

/-- The first record of the subject. -/
def republished : Bytes :=
  unsignedRecord 6 ++ octetBytes sixthSignature

/-- A genesis block with the grant and the record. -/
def republishedGenesis : Bytes :=
  block 0 0 0xcc8b7625be2e41baa7a6c4f7c6e49e4fdc398f0a91902b3a40a85e44ee8675dc 8
    [transaction .authorityGrant grantRecord, published 6 sixthSignature]

/-- The context of that block. -/
def republishingContext : ChainContext :=
  { grantingContext with
    genesisBytes := republishedGenesis
    hashProvider := ⟨some republishing.sha256⟩ }

end Sample

open Sample

section

attribute [local instance] Sample.republishing

/-- The record of a publication below the activation height passes the check again, since the
lifecycle has not consumed its nonce, and is refused as a replay. -/
theorem sample_check_disagrees : ∃ v : StorageView,
    Accepts republishingContext v.blocks v.state ∧
    v.state.height + 1 ≥ v.state.publicationActivationHeight ∧
    Comparable v.blocks (txHeaderSize + republished.length) ∧
    (nodeServiceHandle ⟨republishingContext, v.blocks, none, []⟩ (checkRequest 7 republished)
      (List.replicate 20 0) 20).UnderContext ∧
    (pendingAdmit .empty republished none v republishingContext.hashProvider).result = .replay := by
  obtain ⟨s, hs, hstate⟩ := accepts_of_any republishingContext [republishedGenesis]
    (fun s => decide (s.height + 1 ≥ s.publicationActivationHeight ∧
      (publicationReport ⟨republishingContext, [republishedGenesis], none, []⟩ s
        republished).acceptance = .underContext ∧
      (pendingAdmit .empty republished none ⟨[republishedGenesis], s⟩
        republishingContext.hashProvider).result = .replay)) (by decide +kernel)
  obtain ⟨hnext, hreport, hreplay⟩ := of_decide_eq_true hstate
  have hoctets : (historyOctets [republishedGenesis]).all (fun t =>
      (transactionDecode t).toOption.all fun tx => tx.type.carriesPair ||
        decide (t.length ≠ txHeaderSize + republished.length)) = true := by
    decide +kernel
  have hevidence : ∀ tx ∈ historyTransactions [republishedGenesis],
      tx.type ≠ .blockCompensationEvidence := by
    decide +kernel
  have hchecked : (nodeServiceHandle ⟨republishingContext, [republishedGenesis], none, []⟩
      (checkRequest 7 republished) (List.replicate 20 0) 20).UnderContext :=
    (checkReply_underContext_iff (v := ⟨[republishedGenesis], s⟩)
      ⟨republishingContext, [republishedGenesis], none, []⟩ hs rfl (.inr hnext) 7 republished
      (List.replicate 20 0) le_rfl).mpr hreport
  refine ⟨⟨[republishedGenesis], s⟩, hs, hnext, ⟨hevidence, ?_⟩, hchecked, hreplay⟩
  intro t ht tx hdecode hplain
  have hone := List.all_eq_true.mp hoctets t ht
  simpa [hdecode, Except.toOption, hplain] using hone

end

section

attribute [local instance] Sample.granting

/-- Before it is published the same record passes the check and is admitted. -/
theorem sample_check_admission_agree : ∃ v : StorageView,
    Accepts grantingContext v.blocks v.state ∧
    (pendingAdmit .empty republished none v grantingContext.hashProvider).result = .accepted ∧
    (nodeServiceHandle ⟨grantingContext, v.blocks, none, []⟩ (checkRequest 7 republished)
      (List.replicate 20 0) 20).UnderContext ∧
    ¬PairUsed v.blocks republished := by
  obtain ⟨s, hs, hstate⟩ := accepts_of_any grantingContext [grantingGenesis]
    (fun s => decide (s.height + 1 ≥ s.publicationActivationHeight ∧
      (pendingAdmit .empty republished none ⟨[grantingGenesis], s⟩
        grantingContext.hashProvider).result = .accepted)) (by decide +kernel)
  obtain ⟨hnext, hadmitted⟩ := of_decide_eq_true hstate
  have hoctets : ∀ t ∈ historyOctets [grantingGenesis],
      t.length ≠ txHeaderSize + republished.length := by
    decide +kernel
  obtain ⟨hchecked, hagree⟩ := check_admission_agree (v := ⟨[grantingGenesis], s⟩) hs rfl
    (.inr hnext) none none [] 7 republished (List.replicate 20 0) 20 le_rfl
  have hcomparable : Comparable [grantingGenesis] (txHeaderSize + republished.length) :=
    ⟨by decide +kernel, fun t ht _ _ _ => hoctets t ht⟩
  exact ⟨⟨[grantingGenesis], s⟩, hs, hadmitted, hchecked hadmitted,
    ((hagree hcomparable).mp hadmitted).2.2⟩

end

end Sample

end StnChain
