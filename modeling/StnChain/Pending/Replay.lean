import StnChain.Chain.Rotations
import StnChain.Chain.Shares
import StnChain.Pending.Scan

/-!
# Pool entries that recur in a history

What assembly leaves out: `scan` in its replay mode, without a provider.  An entry
recurs in a history that includes its transaction, or one of the same type with the
same replay key.  `replayScan_exact_iff` says for which pools and accepted histories
the scan marks the entries that recur and no others.
-/

namespace StnChain

section

variable [Primitives] {provider : HashProvider}

/-! ## Recurrence -/

/-- What a transaction consumes for good: a signer's nonce, or a share. -/
inductive ReplayKey
  | signed (signer nonce : Octets 32)
  | share (key : ShareReplayKey)
  deriving DecidableEq

/-- The replay key of a transaction, with the whole work identifier of a share. -/
def Transaction.replayKey (tx : Transaction) (provider : HashProvider) : Option ReplayKey :=
  match tx.type with
  | .shareEvidence => (shareDecode tx.record).toOption.map fun share => .share share.key
  | .authorityGrant | .authorityRevoke | .identityRotate =>
      (lifecycleStatement tx.type tx.record).bind fun statement =>
        (lifecycleReplayNonce tx.type statement provider).toOption.map
          (.signed (octetsAt tx.record 1 32))
  | type => (recordPair type tx.record).map fun pair => .signed pair.1 pair.2

/-- A transaction is the entry's own, or of its type with its replay key. -/
def Recurs (provider : HashProvider) (e : PendingEntry) (t : Bytes) : Prop :=
  t = e.transaction ∨ ∃ tx tx' key, transactionDecode t = .ok tx ∧
    transactionDecode e.transaction = .ok tx' ∧ tx.type = tx'.type ∧
    tx.replayKey provider = some key ∧ tx'.replayKey provider = some key

/-- An entry recurs in a history. -/
def Included (provider : HashProvider) (blocks : List Bytes) (e : PendingEntry) : Prop :=
  ∃ t ∈ historyOctets blocks, Recurs provider e t

/-- A transaction carries the signer and nonce the pool keeps for an entry. -/
def SharesPair (e : PendingEntry) (t : Bytes) : Prop :=
  ∃ tx, transactionDecode t = .ok tx ∧
    recordPair tx.type tx.record = some (e.signer, e.nonce)

/-- The type of an entry's transaction carries its pair. -/
def PendingEntry.CarriesPair (e : PendingEntry) : Prop :=
  ∃ tx, transactionDecode e.transaction = .ok tx ∧ tx.type.carriesPair = true

/-- The replay scan succeeds and marks the entries that recur. -/
def ReplayScanExact (pool : Pending provider) (blocks : List Bytes) : Prop :=
  ∃ mask, pendingScan pool blocks true none = .ok mask ∧
    ∃ q, mask = pool.entries.map q ∧
      ∀ e ∈ pool.entries, q e = true ↔ Included provider blocks e

/-- A recurring entry is of a type that carries its pair, or shares its pair with a
transaction all the same, and an entry that does not recur shares its pair with none. -/
def PairsSeparate (pool : Pending provider) (blocks : List Bytes) : Prop :=
  ∀ e ∈ pool.entries,
    (Included provider blocks e → e.CarriesPair ∨ ∃ t ∈ historyOctets blocks, SharesPair e t) ∧
      (¬Included provider blocks e → ∀ t ∈ historyOctets blocks, ¬SharesPair e t)

/-! ## What the scan recognizes -/

theorem transactionDecode_head {t : Bytes} {tx : Transaction}
    (h : transactionDecode t = .ok tx) : t.length < 2 ^ 24 ∧ t.head? = some 0x53 := by
  have hoctets := (transactionDecode_eq_ok h).2.2
  constructor
  · simp only [transactionDecode] at h
    split at h
    · simp at h
    next hsize =>
    have hmax : txMaxSize < 2 ^ 24 := by decide
    omega
  · rw [hoctets]
    rfl

/-- An entry is never the octets from a length prefix on. -/
theorem ScanKey.selects_octets {t : Bytes} {tx : Transaction} {e : PendingEntry}
    (ht : transactionDecode t = .ok tx) (he : ∃ tx, transactionDecode e.transaction = .ok tx) :
    ScanKey.octets.selects t e = false := by
  obtain ⟨tx', he⟩ := he
  obtain ⟨hlength, hhead⟩ := transactionDecode_head ht
  have hnonempty : 0 < t.length := by
    cases t with
    | nil => simp at hhead
    | cons b t => simp
  have hzero : t.length / 16777216 = 0 := Nat.div_eq_of_lt hlength
  have hprefix : (prefixedOctets t).head? = some 0 := by
    simp [prefixedOctets, wireWrite, BigEndian.write, List.head?_take, hnonempty.ne', hzero]
  simp only [ScanKey.selects, Bool.and_eq_false_iff, decide_eq_false_iff_not]
  right
  intro heq
  rw [← heq, (transactionDecode_head he).2] at hprefix
  simp at hprefix

omit [Primitives] in
theorem recordPair_of_no_pair {type : TransactionType} (h : type.carriesPair = false)
    (record : Bytes) : recordPair type record = none := by
  cases type <;> simp_all [TransactionType.carriesPair, recordPair]

theorem scanKey_of_no_pair {tx : Transaction} (h : tx.type.carriesPair = false) :
    scanKey tx none = .error .content ∨ scanKey tx none = .ok .octets := by
  simp only [scanKey, h, Bool.false_eq_true, ↓reduceIte]
  split
  · cases contractTransactionDecode tx.record <;> simp
  · exact .inr rfl

/-- Without a provider the scan marks the entries a transaction shares its pair with. -/
theorem replayJudge_selects_iff {t : Bytes} {e : PendingEntry}
    (he : ∃ tx, transactionDecode e.transaction = .ok tx) :
    Marking.Selects (scanJudge true none) t e ↔ SharesPair e t := by
  simp only [Marking.Selects, scanJudge, SharesPair]
  cases hdecode : transactionDecode t with
  | error status => simp
  | ok tx =>
      have hoctets := ScanKey.selects_octets hdecode he
      simp only [Except.ok.injEq, exists_eq_left']
      by_cases hpair : tx.type.carriesPair = true
      · simp only [scanKey, hpair, ↓reduceIte]
        cases hrecord : recordPair tx.type tx.record with
        | none => simp
        | some pair =>
            simp only [Except.ok.injEq, exists_eq_left', ScanKey.selects, Bool.and_eq_true,
              decide_eq_true_eq, Option.some.injEq, Prod.ext_iff]
            exact and_congr eq_comm eq_comm
      · have hno : tx.type.carriesPair = false := by simpa using hpair
        rw [recordPair_of_no_pair hno]
        rcases scanKey_of_no_pair hno with hkey | hkey <;> simp [hkey, hoctets]

/-! ## Where the scan is exact -/

omit [Primitives] in
/-- Of a type that carries its pair, transactions with one replay key have one pair. -/
theorem recordPair_of_replayKey {tx tx' : Transaction} {key : ReplayKey}
    (htype : tx.type = tx'.type) (hcarries : tx.type.carriesPair = true)
    (h : tx.replayKey provider = some key) (h' : tx'.replayKey provider = some key) :
    recordPair tx.type tx.record = recordPair tx'.type tx'.record := by
  have hsigned {p p' : Option (Octets 32 × Octets 32)}
      (hp : p.map (fun pair => ReplayKey.signed pair.1 pair.2) = some key)
      (hp' : p'.map (fun pair => ReplayKey.signed pair.1 pair.2) = some key) : p = p' := by
    obtain ⟨pair, rfl, rfl⟩ := Option.map_eq_some_iff.mp hp
    obtain ⟨pair', rfl, heq⟩ := Option.map_eq_some_iff.mp hp'
    obtain ⟨hsigner, hnonce⟩ := ReplayKey.signed.inj heq
    rw [Prod.ext hsigner hnonce]
  rw [← htype]
  cases htx : tx.type <;> simp only [htx, TransactionType.carriesPair, Bool.false_eq_true]
    at hcarries
  case shareEvidence =>
    rw [htx] at htype
    simp only [Transaction.replayKey, htx, ← htype] at h h'
    obtain ⟨share, hshare, rfl⟩ := Option.map_eq_some_iff.mp h
    obtain ⟨share', hshare', heq⟩ := Option.map_eq_some_iff.mp h'
    obtain ⟨hwork, hminer, hnonce⟩ := ShareReplayKey.mk.inj (ReplayKey.share.inj heq)
    simp [recordPair, hshare, hshare', shareNonce, hwork, hminer, hnonce]
  all_goals
    rw [htx] at htype
    simp only [Transaction.replayKey, htx, ← htype] at h h'
    exact hsigned h h'

/-- A recurring entry of a type that carries its pair shares it with a transaction. -/
theorem sharesPair_of_recurs {pool : Pending provider} {e : PendingEntry}
    (he : e ∈ pool.entries) (hcarries : e.CarriesPair) {t : Bytes}
    (h : Recurs provider e t) : SharesPair e t := by
  obtain ⟨tx', hdecode', htype⟩ := hcarries
  have hrecord := (pool.formed e he).recordPair_eq hdecode' htype
  rcases h with rfl | ⟨tx, tx'', key, hdecode, hdecode'', hsame, hkey, hkey'⟩
  · exact ⟨tx', hdecode', hrecord⟩
  · obtain rfl := Except.ok.inj (hdecode'.symm.trans hdecode'')
    refine ⟨tx, hdecode, ?_⟩
    rw [recordPair_of_replayKey hsame (hsame ▸ htype) hkey hkey', hrecord]

/-- Every transaction of an accepted history can be scanned for replays. -/
theorem Reaches.replayJudge_ok {c : ChainContext} {blocks : List Bytes} {s : ChainState}
    (h : Reaches c blocks s) {t : Bytes} (ht : t ∈ historyOctets blocks) :
    ∃ p, scanJudge true none t = .ok p := by
  obtain ⟨tx, hdecode⟩ := decode_of_mem_historyOctets (fun bytes => h.decode_of_mem) ht
  have hrecord := (transactionDecode_eq_ok hdecode).2.1
  have hkey : ∃ key, scanKey tx none = .ok key := by
    by_cases hpair : tx.type.carriesPair = true
    · have hshare : tx.type = .shareEvidence → tx.record.length ≠ 73 := by
        intro htype hold
        obtain ⟨share, -, -, -, -, hshare, -⟩ := h.share_transaction_checked
          (mem_historyTransactions.mpr ⟨t, ht, hdecode⟩) htype
        simp [shareDecode, shareCanonicalSize, hold] at hshare
      obtain ⟨pair, hsome⟩ := recordPair_isSome hrecord hpair hshare
      simp [scanKey, hpair, hsome]
    by_cases hcontract : tx.type = .contractAction
    · obtain ⟨action, haction⟩ := contractDecode_of_type hrecord hcontract
      simp [scanKey, hcontract, TransactionType.carriesPair, haction]
    · simp [scanKey, hpair, hcontract]
  obtain ⟨key, hkey⟩ := hkey
  simp [scanJudge, hdecode, hkey]

/-- Over an accepted history the replay scan marks the recurring entries of a pool and no
others exactly when recurring entries carry or share their pair and the pairs of the
others are their own. -/
theorem replayScan_exact_iff {c : ChainContext} {blocks : List Bytes} {s : ChainState}
    (h : Accepts c blocks s) (pool : Pending provider) :
    ReplayScanExact pool blocks ↔ PairsSeparate pool blocks := by
  obtain ⟨-, hreach⟩ := accepts_iff.mp h
  obtain ⟨mask, hmask⟩ : ∃ mask, Marking.scan (scanJudge true none) pool.entries
      (pool.entries.map fun _ => false) (historyOctets blocks) = .ok mask :=
    Marking.exists_scan_iff.mpr fun t ht => hreach.replayJudge_ok ht
  have hdecodes {e : PendingEntry} (he : e ∈ pool.entries) :
      ∃ tx, transactionDecode e.transaction = .ok tx := by
    obtain ⟨tx, hdecode, -⟩ := (pool.formed e he).pair
    exact ⟨tx, hdecode⟩
  obtain ⟨-, q, rfl, hq⟩ := Marking.scan_eq_ok_iff.mp hmask
  have hmarks (e : PendingEntry) (he : e ∈ pool.entries) :
      q e = true ↔ ∃ t ∈ historyOctets blocks, SharesPair e t := by
    rw [hq e]
    exact exists_congr fun t => and_congr_right fun _ => replayJudge_selects_iff (hdecodes he)
  have hscan : pendingScan pool blocks true none = .ok (pool.entries.map q) := by
    rw [pendingScan, markBlocks_of_decode fun bytes => hreach.decode_of_mem]
    exact hmask
  constructor
  · rintro ⟨mask, hmask', q', rfl, hq'⟩ e he
    have hsame : q e = q' e :=
      List.map_inj_left.mp (Except.ok.inj (hscan.symm.trans hmask')) e he
    have hiff : (∃ t ∈ historyOctets blocks, SharesPair e t) ↔ Included provider blocks e := by
      rw [← hmarks e he, hsame, hq' e he]
    constructor
    · intro hincluded
      exact .inr (hiff.mpr hincluded)
    · intro hfresh t ht hshares
      exact hfresh (hiff.mp ⟨t, ht, hshares⟩)
  · intro hseparate
    refine ⟨_, hscan, q, rfl, ?_⟩
    intro e he
    obtain ⟨hrecurring, hfresh⟩ := hseparate e he
    rw [hmarks e he]
    constructor
    · rintro ⟨t, ht, hshares⟩
      by_contra hnot
      exact hfresh hnot t ht hshares
    · intro hincluded
      rcases hrecurring hincluded with hcarries | hshares
      · obtain ⟨t, ht, hrecurs⟩ := hincluded
        exact ⟨t, ht, sharesPair_of_recurs he hcarries hrecurs⟩
      · exact hshares

end

section Sample

/-! ## Sample scans -/

attribute [local instance] Sample.rotating

open Sample

/-- The scan passes over a rotation that the history includes. -/
theorem sample_replay_missed : ∃ s, Accepts rotatingContext [rotatingGenesis] s ∧
    ¬ReplayScanExact (poolOf rotatingContext.hashProvider [rotate first second firstSignature])
      [rotatingGenesis] := by
  obtain ⟨s, hs⟩ : ∃ s, Accepts rotatingContext [rotatingGenesis] s :=
    accepts_of_isSome (by decide +kernel)
  refine ⟨s, hs, ?_⟩
  rintro ⟨mask, hmask, q, hmap, hq⟩
  have hclear : (pendingScan (poolOf rotatingContext.hashProvider
      [rotate first second firstSignature]) [rotatingGenesis] true none).toOption =
        some [false] := by
    decide +kernel
  have hentries : (poolOf rotatingContext.hashProvider
      [rotate first second firstSignature]).entries.map PendingEntry.transaction =
        [rotate first second firstSignature] := by
    decide +kernel
  obtain ⟨e, he, htransaction⟩ := List.map_eq_singleton_iff.mp hentries
  have hunmarked : q e = false := by
    rw [hmask, hmap, he] at hclear
    simpa [Except.toOption] using hclear
  obtain ⟨b, hdecode, htransactions⟩ := sample_rotations_block
  have hmarked : q e = true := by
    apply (hq e (by simp [he])).mpr
    refine ⟨e.transaction, ?_, .inl rfl⟩
    rw [htransaction, historyOctets, List.flatMap_singleton, blockTransactions_of_decode hdecode,
      htransactions]
    exact List.mem_cons_self
  simp [hunmarked] at hmarked

/-- The scan of a pool that holds a publication. -/
theorem sample_replay_scanned : ∃ s, Accepts rotatingContext [rotatingGenesis] s ∧
    (ReplayScanExact (poolOf rotatingContext.hashProvider [publication]) [rotatingGenesis] ↔
      PairsSeparate (poolOf rotatingContext.hashProvider [publication]) [rotatingGenesis]) := by
  obtain ⟨s, hs⟩ : ∃ s, Accepts rotatingContext [rotatingGenesis] s :=
    accepts_of_isSome (by decide +kernel)
  exact ⟨s, hs, replayScan_exact_iff hs _⟩

end Sample

end StnChain
