import StnChain.Chain.History
import StnChain.Pending.Pool
import StnChain.Support.Marking

/-!
# Pool entries a history includes

`scan` of `stn_pending.c` walks over the blocks of a history and marks the pool
entries it recognizes, by replay key for assembly or by transaction identifier for
`stn_pending_inclusions`.  `stn_pending_cleanup.c` has a second walk for the latter
purpose, which compares identifiers alone.  `inclusions_agree_iff` says on which
histories the two walks agree.
-/

namespace StnChain

section

variable [Primitives]

/-! ## The scan -/

/-- What a scan for replays compares a transaction by: its octets, which is the flag
`lifecycle` of the source, or a signer and nonce. -/
inductive ScanKey
  | octets
  | pair (signer nonce : Octets 32)

/-- The first half of a round of `scan`. -/
def scanKey (tx : Transaction) (hash : Option HashProvider) : Except DataStatus ScanKey :=
  if tx.type.carriesPair then
    match recordPair tx.type tx.record with
    | none => .error .content
    | some (signer, nonce) => .ok (.pair signer nonce)
  else if tx.type = .contractAction then
    match contractTransactionDecode tx.record with
    | .error _ => .error .content
    | .ok _ => .ok .octets
  else
    match hash with
    | none => .ok .octets
    | some provider =>
        match lifecycleStatement tx.type tx.record with
        | none => .error .content
        | some statement =>
            match lifecycleReplayNonce tx.type statement provider with
            | .error _ => .error .content
            | .ok _ => .ok .octets

/-- As many octets of a body as a transaction has, from its length prefix on. -/
def prefixedOctets (t : Bytes) : Bytes :=
  (wireWrite 4 t.length ++ t).take t.length

/-- A scan for replays recognizes an entry. -/
def ScanKey.selects (key : ScanKey) (t : Bytes) (e : PendingEntry) : Bool :=
  match key with
  | .octets => e.transaction.length = t.length && e.transaction = prefixedOctets t
  | .pair signer nonce => e.signer = signer && e.nonce = nonce

/-- A round of `scan`: the entries a transaction marks. -/
def scanJudge (replay : Bool) (hash : Option HashProvider) (t : Bytes) :
    Except DataStatus (PendingEntry → Bool) :=
  match transactionDecode t with
  | .error _ => .error .content
  | .ok tx =>
      match scanKey tx hash with
      | .error status => .error status
      | .ok key =>
          if replay then .ok (key.selects t)
          else
            match transactionId t (hash.getD ⟨none⟩) with
            | .error _ => .error .providerError
            | .ok id => .ok fun e => e.id = id

/-- A walk over the transactions of a list of blocks. -/
def markBlocks (judge : Bytes → Except DataStatus (PendingEntry → Bool))
    (entries : List PendingEntry) (blocks : List Bytes) : Except DataStatus (List Bool) :=
  blocks.foldlM (fun mask bytes =>
    match blockDecode bytes with
    | .error _ => .error .content
    | .ok b => Marking.scan judge entries mask b.transactions) (entries.map fun _ => false)

variable {provider : HashProvider}

/-- `scan`. -/
def pendingScan (pool : Pending provider) (blocks : List Bytes) (replay : Bool)
    (hash : Option HashProvider) : Except DataStatus (List Bool) :=
  markBlocks (scanJudge replay hash) pool.entries blocks

/-- `stn_pending_inclusions`. -/
def pendingInclusions (pool : Pending provider) (blocks : List Bytes) :
    Except DataStatus (List Bool) :=
  pendingScan pool blocks false (some provider)

/-- A round of `stn_pending_committed_inclusions`, which marks the first entry with the
identifier of a transaction. -/
def committedJudge (pool : Pending provider) (t : Bytes) :
    Except DataStatus (PendingEntry → Bool) :=
  match transactionDecode t with
  | .error _ => .error .content
  | .ok _ =>
      match transactionId t provider with
      | .error _ => .error .providerError
      | .ok id => .ok fun e => pool.entries.find? (fun x => x.id = id) = some e

/-- `stn_pending_committed_inclusions`. -/
def pendingCommittedInclusions (pool : Pending provider) (blocks : List Bytes) :
    Except DataStatus (List Bool) :=
  match provider.hash with
  | none => .error .argument
  | some _ => markBlocks (committedJudge pool) pool.entries blocks

/-! ## Walks over well-formed blocks -/

/-- The octets of the transactions of a history, in block and body order. -/
def historyOctets (blocks : List Bytes) : List Bytes :=
  blocks.flatMap blockTransactions

/-- Over blocks that decode, a walk is one scan over all transactions. -/
theorem markBlocks_of_decode {judge : Bytes → Except DataStatus (PendingEntry → Bool)}
    {entries : List PendingEntry} {blocks : List Bytes}
    (hblocks : ∀ bytes ∈ blocks, ∃ b, blockDecode bytes = .ok b) :
    markBlocks judge entries blocks =
      Marking.scan judge entries (entries.map fun _ => false) (historyOctets blocks) := by
  apply Marking.foldlM_eq_scan
  intro bytes hbytes mask
  obtain ⟨b, hdecode⟩ := hblocks bytes hbytes
  simp only [hdecode, blockTransactions_of_decode hdecode]

theorem mem_historyTransactions {blocks : List Bytes} {tx : Transaction} :
    tx ∈ historyTransactions blocks ↔
      ∃ t ∈ historyOctets blocks, transactionDecode t = .ok tx := by
  simp only [historyTransactions, historyOctets, List.mem_flatMap, mem_decodedTransactions]
  constructor
  · rintro ⟨bytes, hbytes, t, ht, hdecode⟩
    exact ⟨t, ⟨bytes, hbytes, ht⟩, hdecode⟩
  · rintro ⟨t, ⟨bytes, hbytes, ht⟩, hdecode⟩
    exact ⟨bytes, hbytes, t, ht, hdecode⟩

theorem decode_of_mem_historyOctets {blocks : List Bytes}
    (hblocks : ∀ bytes ∈ blocks, ∃ b, blockDecode bytes = .ok b) {t : Bytes}
    (ht : t ∈ historyOctets blocks) : ∃ tx, transactionDecode t = .ok tx := by
  obtain ⟨bytes, hbytes, ht⟩ := List.mem_flatMap.mp ht
  obtain ⟨b, hdecode⟩ := hblocks bytes hbytes
  rw [blockTransactions_of_decode hdecode] at ht
  exact Block.decode_transactions hdecode t ht

/-! ## Where the walks agree -/

/-- A transaction `scan` can recognize: no block-compensation evidence, no share in the
old format, and no lifecycle statement that is malformed or has a zero nonce. -/
structure Scannable (provider : HashProvider) (tx : Transaction) : Prop where
  evidence : tx.type ≠ .blockCompensationEvidence
  share : tx.type = .shareEvidence → tx.record.length ≠ 73
  lifecycle : tx.type = .authorityGrant ∨ tx.type = .authorityRevoke ∨
      tx.type = .identityRotate →
    ∃ statement nonce, lifecycleStatement tx.type tx.record = some statement ∧
      lifecycleReplayNonce tx.type statement provider = .ok nonce

/-- The transactions of a history and the entries of a pool that have one identifier are
the same. -/
def IdsDistinct (pool : Pending provider) (blocks : List Bytes) : Prop :=
  ∀ t ∈ historyOctets blocks, ∀ e ∈ pool.entries,
    transactionId t provider = .ok e.id → t = e.transaction

/-- Both walks succeed and mark the entries whose transactions the history includes. -/
def InclusionsAgree (pool : Pending provider) (blocks : List Bytes) : Prop :=
  ∃ mask, pendingInclusions pool blocks = .ok mask ∧
    pendingCommittedInclusions pool blocks = .ok mask ∧
    mask = pool.entries.map fun e => decide (e.transaction ∈ historyOctets blocks)

theorem transactionId_total (h : provider.Total) {t : Bytes} {tx : Transaction}
    (hdecode : transactionDecode t = .ok tx) : ∃ id, transactionId t provider = .ok id := by
  obtain ⟨id, hid⟩ := h.digest (cString "STN-CHAIN:TX:ID:1") t
  exact ⟨id, by simp [transactionId, hdecode, hid]⟩

/-- A record that its type accepts carries its pair, if the type has one. -/
theorem recordPair_isSome {type : TransactionType} {record : Bytes}
    (h : recordMatchesType type record = .ok ()) (htype : type.carriesPair = true)
    (hshare : type = .shareEvidence → record.length ≠ 73) :
    ∃ pair, recordPair type record = some pair := by
  cases type <;> simp only [TransactionType.carriesPair, Bool.false_eq_true] at htype
  case shareEvidence =>
    have hdecodes : (shareDecode record).toBool = true := by
      simpa [recordMatchesType, hshare rfl] using h
    obtain ⟨a, ha⟩ := exists_ok_of_toBool hdecodes
    simp [recordPair, ha, Except.toOption]
  all_goals
    simp only [recordMatchesType, ite_eq_left_iff, reduceCtorEq, imp_false, Bool.not_eq_true,
      Bool.not_eq_false] at h
    obtain ⟨a, ha⟩ := exists_ok_of_toBool h
    simp [recordPair, ha, Except.toOption]

/-- A record of a contract action decodes. -/
theorem contractDecode_of_type {type : TransactionType} {record : Bytes}
    (h : recordMatchesType type record = .ok ()) (htype : type = .contractAction) :
    ∃ action, contractTransactionDecode record = .ok action := by
  subst htype
  simp only [recordMatchesType, ite_eq_left_iff, reduceCtorEq, imp_false, Bool.not_eq_true,
    Bool.not_eq_false] at h
  exact exists_ok_of_toBool h

omit [Primitives] in
/-- A share in the old format does not decode. -/
theorem recordPair_old_share {record : Bytes} (h : record.length = 73) :
    recordPair .shareEvidence record = none := by
  simp [recordPair, shareDecode, shareCanonicalSize, h, Except.toOption]

theorem scanKey_eq_ok_iff {t : Bytes} {tx : Transaction} (hdecode : transactionDecode t = .ok tx) :
    (∃ key, scanKey tx (some provider) = .ok key) ↔ Scannable provider tx := by
  have hrecord := (transactionDecode_eq_ok hdecode).2.1
  constructor
  · rintro ⟨key, hkey⟩
    simp only [scanKey] at hkey
    constructor
    · intro htype
      simp [htype, TransactionType.carriesPair, lifecycleStatement] at hkey
    · intro htype hold
      simp [htype, TransactionType.carriesPair, recordPair_old_share hold] at hkey
    · intro htype
      have hplain : tx.type.carriesPair = false ∧ tx.type ≠ .contractAction := by
        rcases htype with htype | htype | htype <;> simp [htype, TransactionType.carriesPair]
      simp only [hplain, Bool.false_eq_true, ↓reduceIte] at hkey
      split at hkey
      · simp at hkey
      next statement hstatement =>
      split at hkey
      · simp at hkey
      next nonce hnonce =>
      exact ⟨statement, nonce, hstatement, hnonce⟩
  · intro h
    simp only [scanKey]
    by_cases hpair : tx.type.carriesPair = true
    · obtain ⟨pair, hsome⟩ := recordPair_isSome hrecord hpair h.share
      simp [hpair, hsome]
    by_cases hcontract : tx.type = .contractAction
    · obtain ⟨action, haction⟩ := contractDecode_of_type hrecord hcontract
      simp [hcontract, TransactionType.carriesPair, haction]
    · have hlifecycle : tx.type = .authorityGrant ∨ tx.type = .authorityRevoke ∨
          tx.type = .identityRotate := by
        have hevidence := h.evidence
        cases htype : tx.type <;> simp_all [TransactionType.carriesPair]
      obtain ⟨statement, nonce, hstatement, hnonce⟩ := h.lifecycle hlifecycle
      simp [hpair, hcontract, hstatement, hnonce]

/-- A transaction marks the entries with its identifier. -/
theorem scanJudge_selects_iff {t : Bytes} {e : PendingEntry}
    (hjudged : ∃ p, scanJudge false (some provider) t = .ok p) :
    Marking.Selects (scanJudge false (some provider)) t e ↔
      transactionId t provider = .ok e.id := by
  obtain ⟨p, hp⟩ := hjudged
  have hid : ∃ id, transactionId t provider = .ok id ∧ p = fun e => decide (e.id = id) := by
    simp only [scanJudge] at hp
    split at hp
    · simp at hp
    split at hp
    · simp at hp
    simp only [Bool.false_eq_true, ↓reduceIte, Option.getD_some] at hp
    split at hp
    · simp at hp
    · next id hid => exact ⟨id, hid, (Except.ok.inj hp).symm⟩
  obtain ⟨id, hid, rfl⟩ := hid
  simp only [Marking.Selects, hp, hid, Except.ok.injEq, exists_eq_left', decide_eq_true_eq]
  exact eq_comm

theorem committedJudge_selects_iff {pool : Pending provider} {t : Bytes} {tx : Transaction}
    (hdecode : transactionDecode t = .ok tx) {e : PendingEntry} (he : e ∈ pool.entries) :
    Marking.Selects (committedJudge pool) t e ↔ transactionId t provider = .ok e.id := by
  simp only [Marking.Selects, committedJudge, hdecode]
  cases hid : transactionId t provider with
  | error status => simp
  | ok id =>
      simp only [Except.ok.injEq, exists_eq_left', decide_eq_true_eq]
      constructor
      · intro hfind
        simpa [eq_comm] using List.find?_some hfind
      · rintro rfl
        -- Identifiers are distinct, so the first entry with this one is the entry itself.
        cases hfind : pool.entries.find? fun x => decide (x.id = e.id) with
        | none => simpa using List.find?_eq_none.mp hfind e he
        | some x =>
            have hkey : x.key = e.key := by
              have hsame : x.id = e.id := by simpa using List.find?_some hfind
              simp [PendingEntry.key, hsame]
            rw [pool.sorted.eq_of_key_eq (List.mem_of_find?_eq_some hfind) he hkey]

theorem scanJudge_ok_iff (hprovider : provider.Total) {t : Bytes} {tx : Transaction}
    (hdecode : transactionDecode t = .ok tx) :
    (∃ p, scanJudge false (some provider) t = .ok p) ↔ Scannable provider tx := by
  obtain ⟨id, hid⟩ := transactionId_total hprovider hdecode
  rw [← scanKey_eq_ok_iff hdecode]
  simp only [scanJudge, hdecode]
  cases scanKey tx (some provider) with
  | error status => simp
  | ok key => simp [hid]

/-- On blocks that decode, with a provider that does not fail and identifiers free of
collisions, both walks succeed and mark the included entries exactly when `scan` can
recognize every transaction. -/
theorem inclusions_agree_iff {pool : Pending provider} {blocks : List Bytes}
    (hblocks : ∀ bytes ∈ blocks, ∃ b, blockDecode bytes = .ok b) (hprovider : provider.Total)
    (hdistinct : IdsDistinct pool blocks) :
    InclusionsAgree pool blocks ↔
      ∀ tx ∈ historyTransactions blocks, Scannable provider tx := by
  have hdecodes {t : Bytes} (ht : t ∈ historyOctets blocks) :=
    decode_of_mem_historyOctets hblocks ht
  have hincluded (e : PendingEntry) (he : e ∈ pool.entries) :
      (∃ t ∈ historyOctets blocks, transactionId t provider = .ok e.id) ↔
        decide (e.transaction ∈ historyOctets blocks) = true := by
    rw [decide_eq_true_eq]
    constructor
    · rintro ⟨t, ht, hid⟩
      rwa [← hdistinct t ht e he hid]
    · intro ht
      exact ⟨e.transaction, ht, (pool.formed e he).id⟩
  simp only [InclusionsAgree, pendingInclusions, pendingScan, markBlocks_of_decode hblocks]
  constructor
  · rintro ⟨mask, hmask, -, -⟩ tx htx
    obtain ⟨t, ht, hdecode⟩ := mem_historyTransactions.mp htx
    apply (scanJudge_ok_iff hprovider hdecode).mp
    exact Marking.exists_scan_iff.mp ⟨mask, hmask⟩ t ht
  · intro hscannable
    have hjudged : ∀ t ∈ historyOctets blocks,
        ∃ p, scanJudge false (some provider) t = .ok p := by
      intro t ht
      obtain ⟨tx, hdecode⟩ := hdecodes ht
      apply (scanJudge_ok_iff hprovider hdecode).mpr
      exact hscannable tx (mem_historyTransactions.mpr ⟨t, ht, hdecode⟩)
    have hcommitted : ∀ t ∈ historyOctets blocks, ∃ p, committedJudge pool t = .ok p := by
      intro t ht
      obtain ⟨tx, hdecode⟩ := hdecodes ht
      obtain ⟨id, hid⟩ := transactionId_total hprovider hdecode
      simp [committedJudge, hdecode, hid]
    obtain ⟨mask, hmask⟩ : ∃ mask, Marking.scan (scanJudge false (some provider)) pool.entries
        (pool.entries.map fun _ => false) (historyOctets blocks) = .ok mask :=
      Marking.exists_scan_iff.mpr hjudged
    obtain ⟨mask', hmask'⟩ : ∃ mask, Marking.scan (committedJudge pool) pool.entries
        (pool.entries.map fun _ => false) (historyOctets blocks) = .ok mask :=
      Marking.exists_scan_iff.mpr hcommitted
    have hfirst : mask =
        pool.entries.map fun e => decide (e.transaction ∈ historyOctets blocks) := by
      apply Marking.scan_eq_map hmask
      intro e he
      rw [← hincluded e he]
      apply exists_congr
      intro t
      apply and_congr_right
      intro ht
      exact scanJudge_selects_iff (hjudged t ht)
    have hsecond : mask' =
        pool.entries.map fun e => decide (e.transaction ∈ historyOctets blocks) := by
      apply Marking.scan_eq_map hmask'
      intro e he
      rw [← hincluded e he]
      apply exists_congr
      intro t
      apply and_congr_right
      intro ht
      obtain ⟨tx, hdecode⟩ := hdecodes ht
      exact committedJudge_selects_iff hdecode he
    obtain ⟨hash, hhash, -⟩ := hprovider
    refine ⟨mask, hmask, ?_, hfirst⟩
    rw [pendingCommittedInclusions, hhash, markBlocks_of_decode hblocks, hfirst, ← hsecond]
    exact hmask'

end

section Sample

/-! ## Sample inclusions -/

namespace Sample

/-- A pool with the transactions of a list that can be inserted. -/
def poolOf [Primitives] (provider : HashProvider) (ts : List Bytes) : Pending provider :=
  ts.foldl (fun pool t =>
    match pendingInsert pool t with
    | .error _ => pool
    | .ok pool => pool) (pendingInit provider)

theorem hash_total : context.hashProvider.Total :=
  ⟨hash, rfl, fun _ _ => ⟨_, rfl⟩⟩

end Sample

attribute [local instance] Sample.primitives

open Sample

theorem sample_rewards_decodes : ∀ bytes ∈ [rewards], ∃ b, blockDecode bytes = .ok b := by
  have hdecodes : (blockDecode rewards).toBool = true := by decide +kernel
  simpa using exists_ok_of_toBool hdecodes

/-- The inclusion scan refuses a block with block-compensation evidence. -/
theorem sample_inclusions_differ :
    (∀ bytes ∈ [rewards], ∃ b, blockDecode bytes = .ok b) ∧
      IdsDistinct (pendingInit context.hashProvider) [rewards] ∧
      ¬InclusionsAgree (pendingInit context.hashProvider) [rewards] := by
  refine ⟨sample_rewards_decodes, by simp [IdsDistinct, pendingInit], ?_⟩
  rintro ⟨mask, hmask, -⟩
  have hfails :
      (pendingInclusions (pendingInit context.hashProvider) [rewards]).toBool = false := by
    decide +kernel
  simp [hmask, Except.toBool] at hfails

/-- Both walks recognize a destination of a block. -/
theorem sample_inclusions_agree :
    (poolOf context.hashProvider [destination alice]).entries.length = 1 ∧
      (InclusionsAgree (poolOf context.hashProvider [destination alice]) [shares] ↔
        ∀ tx ∈ historyTransactions [shares], Scannable context.hashProvider tx) := by
  have hdecodes : (blockDecode shares).toBool = true := by decide +kernel
  refine ⟨by decide +kernel, inclusions_agree_iff ?_ hash_total ?_⟩
  · simpa using exists_ok_of_toBool hdecodes
  · have hids : (historyOctets [shares]).all (fun t =>
        (poolOf context.hashProvider [destination alice]).entries.all fun e =>
          decide ((transactionId t context.hashProvider).toOption = some e.id →
            t = e.transaction)) = true := by
      decide +kernel
    intro t ht e he hid
    have hone := List.all_eq_true.mp (List.all_eq_true.mp hids t ht) e he
    exact of_decide_eq_true hone (by simp [hid, Except.toOption])

end Sample

end StnChain
