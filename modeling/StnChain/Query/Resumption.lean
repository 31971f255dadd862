import StnChain.ForkChoice
import StnChain.Query.Enumeration
import StnChain.Query.Recovery
import StnChain.Support.Causal

/-!
# Exact recovery

A consumer whose cursor was detached is told a block to roll back to and a record to
resume after (`stn_fork.c`).  The records at or below a common block are decided by the
blocks both histories have, so what the consumer keeps and what it then visits are the
eligible records of the current history, each once.  `recovery_exact_iff` says that this
is so exactly on the histories the record queries answer on.
-/

namespace StnChain

open Causal EarlyExit SelectiveScan

section

variable [Primitives]

/-! ## The eligible records -/

/-- The eligible records of a history, in their order. -/
structure EligibleRecords (c : ChainContext) (blocks : List Bytes)
    (records : List (RecordMatch × ChainCursor)) : Prop where
  ascending : records.Pairwise fun r r' => r.2.Before r'.2
  publications : ∀ r ∈ records, ∃ tx lifecycle, PublicationAt c blocks tx lifecycle r
  exact : ∀ tx lifecycle r, PublicationAt c blocks tx lifecycle r →
    (r ∈ records ↔ Eligible c records tx lifecycle r.2)

/-- The place of a cursor among all cursors. -/
def ChainCursor.rank (p : ChainCursor) : ℕ :=
  p.height.toNat * 2 ^ 32 + p.transactionPosition.toNat

omit [Primitives] in
theorem ChainCursor.Before.rank_lt {p q : ChainCursor} (h : p.Before q) : p.rank < q.rank := by
  have hp := p.transactionPosition.toNat_lt
  have hq := q.transactionPosition.toNat_lt
  simp only [ChainCursor.Before, UInt64.lt_iff_toNat_lt, UInt32.lt_iff_toNat_lt,
    ← UInt64.toNat_inj] at h
  simp only [ChainCursor.rank]
  omega

omit [Primitives] in
theorem ChainCursor.Before.height_le {p q : ChainCursor} (h : p.Before q) :
    p.height ≤ q.height := by
  rcases h with hlow | ⟨heq, -⟩
  · exact UInt64.le_of_lt hlow
  · exact UInt64.le_of_eq heq

omit [Primitives] in
theorem recordBefore_wellFounded :
    WellFounded fun r r' : RecordMatch × ChainCursor => r.2.Before r'.2 :=
  Subrelation.wf (fun h => h.rank_lt)
    (InvImage.wf (fun r : RecordMatch × ChainCursor => r.2.rank) Nat.lt_wfRel.wf)

/-- A record is a publication that is eligible after those before it. -/
def AdmitsRecord (c : ChainContext) (blocks : List Bytes)
    (past : List (RecordMatch × ChainCursor)) (r : RecordMatch × ChainCursor) : Prop :=
  ∃ tx lifecycle, PublicationAt c blocks tx lifecycle r ∧ Eligible c past tx lifecycle r.2

theorem eligible_below (c : ChainContext) (records : List (RecordMatch × ChainCursor))
    (tx : Transaction) (lifecycle : LifecycleState) (r : RecordMatch × ChainCursor) :
    Eligible c (below (fun r r' => r.2.Before r'.2) records r) tx lifecycle r.2 ↔
      Eligible c records tx lifecycle r.2 := by
  simp only [Eligible, seenReplay, below, List.filter_filter, Bool.and_self]

/-- The records before it decide whether a publication is among the eligible records. -/
theorem EligibleRecords.decided {c : ChainContext} {blocks : List Bytes}
    {records : List (RecordMatch × ChainCursor)} (h : EligibleRecords c blocks records) :
    Decided (fun r r' => r.2.Before r'.2) (AdmitsRecord c blocks) records where
  ascending := h.ascending
  mem_iff r := by
    constructor
    · intro hr
      obtain ⟨tx, lifecycle, hat⟩ := h.publications r hr
      have heligible := (h.exact tx lifecycle r hat).mp hr
      exact ⟨tx, lifecycle, hat, (eligible_below c records tx lifecycle r).mpr heligible⟩
    · rintro ⟨tx, lifecycle, hat, heligible⟩
      exact (h.exact tx lifecycle r hat).mpr
        ((eligible_below c records tx lifecycle r).mp heligible)

/-- A publication of a common block is one of both histories. -/
theorem PublicationAt.of_common {c : ChainContext} {front rest : List Bytes} {s : ChainState}
    (h : Reaches c (front ++ rest) s) (rest' : List Bytes) {tx : Transaction}
    {lifecycle : LifecycleState} {r : RecordMatch × ChainCursor}
    (hr : PublicationAt c (front ++ rest) tx lifecycle r)
    (hlow : r.2.height.toNat < front.length) : PublicationAt c (front ++ rest') tx lifecycle r := by
  obtain ⟨past, bytes, tail, b, pre, post, before, after, hblocks, hsplit, hcursor, hround,
    hlifecycle⟩ := hr.position
  rw [hblocks] at h
  have hheight := h.height_at hcursor.decode
  rw [hcursor.height] at hheight
  have hfront : ∃ mid, front = past ++ bytes :: mid := by
    rcases List.append_eq_append_iff.mp hblocks with ⟨mid, hpast, -⟩ | ⟨mid, hfront, htail⟩
    · have hlength := congrArg List.length hpast
      rw [List.length_append] at hlength
      omega
    · cases mid with
      | nil =>
          rw [hfront, List.append_nil] at hlow
          omega
      | cons other mid =>
          obtain ⟨rfl, -⟩ := List.cons_eq_cons.mp htail
          exact ⟨mid, hfront⟩
  obtain ⟨mid, rfl⟩ := hfront
  have hblocks' : past ++ bytes :: mid ++ rest' = past ++ bytes :: (mid ++ rest') := by
    rw [List.append_assoc, List.cons_append]
  exact ⟨⟨past, bytes, mid ++ rest', b, pre, post, before, after, hblocks', hsplit, hcursor,
    hround, hlifecycle⟩, hr.decode, hr.type, hr.recordId, hr.height, hr.blockId⟩

/-- Two histories with common blocks have the same eligible records in them. -/
theorem EligibleRecords.common {c : ChainContext} {front rest rest' : List Bytes}
    {s t : ChainState} (h : Reaches c (front ++ rest) s) (h' : Reaches c (front ++ rest') t)
    {records records' : List (RecordMatch × ChainCursor)}
    (hrecords : EligibleRecords c (front ++ rest) records)
    (hrecords' : EligibleRecords c (front ++ rest') records') {height : UInt64}
    (hheight : height.toNat < front.length) :
    records.filter (fun r => decide (r.2.height ≤ height)) =
      records'.filter fun r => decide (r.2.height ≤ height) := by
  refine hrecords.decided.filter_eq recordBefore_wellFounded hrecords'.decided ?_ ?_
  · intro a b hab hb
    exact decide_eq_true (UInt64.le_trans hab.height_le (of_decide_eq_true hb))
  · intro past r hr
    have hlow := UInt64.le_iff_toNat_le.mp (of_decide_eq_true hr)
    constructor
    · rintro ⟨tx, lifecycle, hat, heligible⟩
      exact ⟨tx, lifecycle, hat.of_common h rest' (by omega), heligible⟩
    · rintro ⟨tx, lifecycle, hat, heligible⟩
      exact ⟨tx, lifecycle, hat.of_common h' rest (by omega), heligible⟩

/-! ## Cursors the check accepts -/

/-- A cursor the check finds is one of a block of the history. -/
theorem cursorLoop_eq_valid {c : ChainContext} {cursor : ChainCursor} {blocks : List Bytes}
    {s : ChainState} {result : CursorResult}
    (h : cursorLoop c cursor s result blocks = .valid) (hresult : result ≠ .valid) :
    ∃ bytes ∈ blocks, ∃ b, blockDecode bytes = .ok b ∧ b.header.height = cursor.height ∧
      chainBlockId bytes c.hashProvider = .ok cursor.blockId ∧
      cursor.transactionPosition < b.header.transactionCount := by
  induction blocks generalizing s result with
  | nil => exact absurd h hresult
  | cons bytes rest ih =>
      -- The cursor stands in this block, or the rest of the loop finds it.
      have hrest {s : ChainState} {result : CursorResult}
          (h : cursorLoop c cursor s result rest = .valid) (hresult : result ≠ .valid) :
          ∃ other ∈ bytes :: rest, ∃ b, blockDecode other = .ok b ∧
            b.header.height = cursor.height ∧
            chainBlockId other c.hashProvider = .ok cursor.blockId ∧
            cursor.transactionPosition < b.header.transactionCount := by
        obtain ⟨other, hother, hfound⟩ := ih h hresult
        exact ⟨other, List.mem_cons_of_mem bytes hother, hfound⟩
      simp only [cursorLoop] at h
      split at h
      · split at h <;> cases h
      split at h
      · cases h
      next b hdecode =>
      split at h
      · next hheight =>
          split at h
          · cases h
          next id hid =>
          split at h
          · next hcursor =>
              exact ⟨bytes, List.mem_cons_self, b, hdecode, hheight, hcursor.1 ▸ hid, hcursor.2⟩
          · exact hrest h hresult
      · exact hrest h hresult

/-- A valid cursor of an accepted history stands at one of its transactions. -/
theorem Reaches.cursorAt_of_valid {c : ChainContext} {blocks : List Bytes} {s : ChainState}
    (h : Reaches c blocks s) {cursor : ChainCursor}
    (hvalid : chainCursorValidate c blocks cursor = .valid) :
    c.powPolicy.isSome ∧ ∃ past bytes rest b pre, blocks = past ++ bytes :: rest ∧
      CursorAt c past bytes b pre cursor := by
  simp only [chainCursorValidate] at hvalid
  split at hvalid
  · cases hvalid
  next hversion =>
  split at hvalid
  · cases hvalid
  next hguard =>
  split at hvalid
  · cases hvalid
  next initial hinit =>
  obtain ⟨bytes, hbytes, b, hdecode, hheight, hid, hwithin⟩ :=
    cursorLoop_eq_valid hvalid CursorResult.noConfusion
  obtain ⟨past, rest, rfl⟩ := List.append_of_mem hbytes
  have hpolicy : c.powPolicy.isSome := by
    rw [Option.isSome_iff_ne_none]
    intro hnone
    exact hguard (.inl (Option.isNone_iff_eq_none.mpr hnone))
  have hlength : cursor.transactionPosition.toNat ≤ b.transactions.length := by
    rw [b.length_transactions]
    exact Nat.le_of_lt (UInt32.lt_iff_toNat_lt.mp hwithin)
  refine ⟨hpolicy, past, bytes, rest, b, b.transactions.take cursor.transactionPosition.toNat, rfl,
    not_not.mp hversion, hdecode, hheight, ?_, hid, ?_, hwithin⟩
  · intro other hother b' hdecode'
    obtain ⟨before, after, rfl⟩ := List.append_of_mem hother
    have hbefore : Reaches c (before ++ other :: (after ++ bytes :: rest)) s := by simpa using h
    rw [← hheight, UInt64.lt_iff_toNat_lt, h.height_at hdecode, hbefore.height_at hdecode']
    simp
  · rw [List.length_take, Nat.min_eq_left hlength]

/-! ## The walk to the rollback height -/

/-- The walk over the records from one on resumes after the last one it may keep. -/
theorem recoveryLoop_eq {c : ChainContext} {current : List Bytes} {s : ChainState}
    (h : Accepts c current s) (hanswer : QueriesAnswer c current) (height : UInt64)
    {pre rest : List (RecordMatch × ChainCursor)} {r : RecordMatch × ChainCursor}
    (hrecords : historyRecords c s.publicationActivationHeight current = pre ++ r :: rest)
    {fuel : ℕ} (hfuel : rest.length < fuel) (resume : Option ChainCursor) :
    recoveryLoop c current height fuel r.2 resume =
      some (((((r :: rest).takeWhile fun r => decide (r.2.height ≤ height)).getLast?).map
        Prod.snd).or resume) := by
  induction rest generalizing pre r fuel resume with
  | nil =>
      obtain ⟨fuel, rfl⟩ := Nat.exists_eq_succ_of_ne_zero (Nat.ne_zero_of_lt hfuel)
      rw [recoveryLoop]
      by_cases hlow : r.2.height ≤ height
      · rw [if_pos hlow, chainNextRecord_eq h hanswer hrecords,
          List.takeWhile_cons_of_pos (a := r) (decide_eq_true hlow)]
        rfl
      · rw [if_neg hlow, List.takeWhile_cons_of_neg (by simpa using hlow)]
        rfl
  | cons r' rest ih =>
      obtain ⟨fuel, rfl⟩ := Nat.exists_eq_succ_of_ne_zero (Nat.ne_zero_of_lt hfuel)
      rw [recoveryLoop]
      by_cases hlow : r.2.height ≤ height
      · have hrecords' : historyRecords c s.publicationActivationHeight current =
            (pre ++ [r]) ++ r' :: rest := by
          rw [hrecords, List.append_assoc]
          rfl
        rw [if_pos hlow, chainNextRecord_eq h hanswer hrecords]
        simp only [nextOf]
        rw [ih hrecords' (Nat.lt_of_succ_lt_succ hfuel),
          List.takeWhile_cons_of_pos (a := r) (decide_eq_true hlow), List.getLast?_cons]
        cases ((r' :: rest).takeWhile fun r => decide (r.2.height ≤ height)).getLast? with
        | none => rfl
        | some last => rfl
      · rw [if_neg hlow, List.takeWhile_cons_of_neg (by simpa using hlow)]
        rfl

omit [Primitives] in
theorem length_entriesOf (bytes : Bytes) (height : UInt64) (ts : List Bytes) (position : ℕ) :
    (entriesOf bytes height ts position).length = ts.length := by
  rw [entriesOf, List.length_map, List.length_zipIdx]

/-- A history has no more records than transactions. -/
theorem length_historyRecords_le (c : ChainContext) (activation : UInt64) (blocks : List Bytes) :
    (historyRecords c activation blocks).length ≤ (blocks.flatMap blockTransactions).length := by
  refine length_log_le.trans (Nat.le_of_eq ?_)
  rw [historyEntries, List.length_flatMap, List.length_flatMap]
  congr 2
  funext bytes
  cases hdecode : blockDecode bytes with
  | error status => simp only [blockEntries, blockTransactions, hdecode, List.length_nil]
  | ok b => rw [blockEntries_of_decode hdecode, blockTransactions_of_decode hdecode,
      length_entriesOf]

/-- The plan that rolls back to a block and resumes after a record, or from the start. -/
def recoveryPlan (rollback : CursorAncestor) : Option ChainCursor → ConsumerRecoveryResult
  | none => .fromStart rollback
  | some resume => .afterCursor rollback resume

/-- What a consumer asks that resumes after a record, or from the start. -/
def resumeQuery (c : ChainContext) (current : List Bytes) : Option ChainCursor → NextResult
  | none => (chainFirstRecord c current).toNext
  | some resume => chainNextRecord c current resume

/-- A plan over a common ancestor resumes after the last record the rollback keeps, and the
consumer visits the records it does not keep. -/
theorem recovery_resumes {c : ChainContext} {current retained : List Bytes} {s : ChainState}
    (h : Accepts c current s) (hanswer : QueriesAnswer c current) {cursor : ChainCursor}
    {rollback : CursorAncestor}
    (hancestor : chainResolveCursorReorg c current retained cursor = .commonAncestor rollback) :
    ∃ resume seen, chainBuildConsumerRecoveryPlan c current retained cursor =
        recoveryPlan rollback resume ∧
      resume = ((((historyRecords c s.publicationActivationHeight current).filter fun r =>
        decide (r.2.height ≤ rollback.height)).getLast?).map Prod.snd) ∧
      Enumerates c current (resumeQuery c current resume) seen ∧
      ((historyRecords c s.publicationActivationHeight current).filter fun r =>
        decide (r.2.height ≤ rollback.height)) ++ seen =
          historyRecords c s.publicationActivationHeight current := by
  obtain ⟨-, hreach⟩ := accepts_iff.mp h
  have hfirst := chainFirstRecord_eq h hanswer
  have hlength := length_historyRecords_le c s.publicationActivationHeight current
  have hkept := filter_eq_takeWhile (hreach.records_pairwise s.publicationActivationHeight)
    (p := fun r => decide (r.2.height ≤ rollback.height)) fun a b hab hb =>
      decide_eq_true (UInt64.le_trans hab.height_le (of_decide_eq_true hb))
  rw [hkept]
  generalize hall : historyRecords c s.publicationActivationHeight current = records at *
  let keeps := fun r : RecordMatch × ChainCursor => decide (r.2.height ≤ rollback.height)
  have hsplit : records.takeWhile keeps ++ records.dropWhile keeps = records :=
    List.takeWhile_append_dropWhile
  refine ⟨((records.takeWhile keeps).getLast?).map Prod.snd, records.dropWhile keeps, ?_, rfl, ?_,
    hsplit⟩
  · simp only [chainBuildConsumerRecoveryPlan, hancestor]
    cases records with
    | nil =>
        have hend : chainFirstRecord c current = .atEnd := by
          cases hresult : chainFirstRecord c current with
          | atEnd => rfl
          | _ => simp [hresult, FirstResult.toNext, nextOf] at hfirst
        simp only [hend]
        rfl
    | cons r rest =>
        have hrecord : chainFirstRecord c current = .record r.1 r.2 := by
          cases hresult : chainFirstRecord c current with
          | record found position =>
              simpa [hresult, FirstResult.toNext, nextOf] using hfirst
          | _ => simp [hresult, FirstResult.toNext, nextOf] at hfirst
        simp only [hrecord]
        rw [recoveryLoop_eq h hanswer rollback.height
          (show historyRecords c s.publicationActivationHeight current = [] ++ r :: rest from hall)
          (Nat.lt_succ_of_lt (Nat.lt_of_succ_le hlength)) none, Option.or_none]
        cases (((r :: rest).takeWhile keeps).getLast?).map Prod.snd with
        | none => rfl
        | some resume => rfl
  · rcases List.eq_nil_or_concat' (records.takeWhile keeps) with hnone | ⟨front, last, hlast⟩
    · rw [hnone, List.nil_append] at hsplit
      rw [hnone, hsplit]
      simp only [List.getLast?_nil, Option.map_none, resumeQuery, hfirst]
      exact enumerates_from h hanswer [] records hall
    · rw [hlast] at hsplit
      have hrecords : historyRecords c s.publicationActivationHeight current =
          front ++ last :: records.dropWhile keeps := by
        rw [hall, ← List.singleton_append, ← List.append_assoc, hsplit]
      rw [hlast, List.getLast?_concat]
      simp only [Option.map_some, resumeQuery]
      rw [chainNextRecord_eq h hanswer hrecords]
      exact enumerates_from h hanswer (front ++ [last]) _ (hall.trans hsplit.symm)

/-! ## Exact recovery -/

/-- The rollback point is the highest block both histories have. -/
structure HighestCommon (c : ChainContext) (current retained : List Bytes)
    (rollback : CursorAncestor) : Prop where
  common : ∃ bytes b, bytes ∈ current ∧ bytes ∈ retained ∧ blockDecode bytes = .ok b ∧
    b.header.height = rollback.height ∧ chainBlockId bytes c.hashProvider = .ok rollback.blockId
  highest : ∀ bytes b, bytes ∈ current → bytes ∈ retained → blockDecode bytes = .ok b →
    b.header.height ≤ rollback.height

/-- A record at or below the rollback point. -/
def CursorAncestor.keeps (rollback : CursorAncestor) (r : RecordMatch × ChainCursor) : Bool :=
  decide (r.2.height ≤ rollback.height)

/-- Rolling back to a block and resuming after a record, or from the start, is exact: the record
is the last one kept, and what is kept and what is then visited are the eligible records of
the current history.  A consumer of the retained history that has come to the cursor keeps
the same. -/
structure ResumesExactly (c : ChainContext) (current retained : List Bytes) (cursor : ChainCursor)
    (rollback : CursorAncestor) (resume : Option ChainCursor) : Prop where
  highest : HighestCommon c current retained rollback
  resumes : ∃ records seen, EligibleRecords c current records ∧
    resume = ((records.filter rollback.keeps).getLast?).map Prod.snd ∧
    Enumerates c current (resumeQuery c current resume) seen ∧
    records.filter rollback.keeps ++ seen = records ∧
    ∀ consumed, EligibleRecords c retained consumed →
      (consumed.filter fun r => !decide (cursor.Before r.2) && rollback.keeps r) ++ seen = records

/-- The plan a consumer is given is exact. -/
def RecoveryExact (c : ChainContext) (current retained : List Bytes) (cursor : ChainCursor) :
    Prop :=
  ∃ rollback resume, chainBuildConsumerRecoveryPlan c current retained cursor =
    recoveryPlan rollback resume ∧ ResumesExactly c current retained cursor rollback resume

section Recovery

variable {c : ChainContext} {current retained : List Bytes} {s t : ChainState}
  {cursor : ChainCursor}

/-- Where the queries answer, a cursor the history does not have is detached. -/
theorem QueriesAnswer.detached (hanswer : QueriesAnswer c current) (h : Accepts c current s)
    (hversion : cursor.version = chainCursorVersion)
    (hcurrent : chainCursorValidate c current cursor ≠ .valid) :
    chainCursorValidate c current cursor = .detached := by
  obtain ⟨hne, hreach⟩ := accepts_iff.mp h
  obtain ⟨hpolicy, hlifecycle⟩ := hanswer.lifecycle hreach
  obtain ⟨initial, u, hinit, hrun, -⟩ := hreach.stateRun_lifecycle hlifecycle
  have hguard : ¬(c.powPolicy.isNone = true ∨ current = []) := by
    rintro (hnone | hempty)
    · simp [Option.isNone_iff_eq_none.mp hnone] at hpolicy
    · exact hne hempty
  have hloop : chainCursorValidate c current cursor =
      cursorLoop c cursor initial .detached current := by
    simp only [chainCursorValidate, hversion, ne_eq, not_true_eq_false, ↓reduceIte, if_neg hguard,
      hinit]
  rcases cursorLoop_of_run cursor hrun (fun bytes hbytes => hreach.blockId_of_mem hbytes) .detached
    with hkeep | hvalid
  · exact hloop.trans hkeep
  · exact absurd (hloop.trans hvalid) hcurrent

/-- The ancestor of a detached cursor is the last block of the longest common prefix. -/
theorem chainResolveCursorReorg_eq (h : Accepts c current s) (h' : Accepts c retained t)
    (hfree : BlocksCollisionFree c.hashProvider (current ++ retained))
    (hcurrent : chainCursorValidate c current cursor = .detached)
    (hretained : chainCursorValidate c retained cursor = .valid) :
    ∃ common ancestorId, IsGreatest (commonLengths current retained) common ∧ 0 < common ∧
      (∀ bytes, current[common - 1]? = some bytes →
        chainBlockId bytes c.hashProvider = .ok ancestorId) ∧
      chainResolveCursorReorg c current retained cursor =
        .commonAncestor ⟨UInt64.ofNat (common - 1), ancestorId⟩ := by
  obtain ⟨hne, hreach'⟩ := accepts_iff.mp h'
  obtain ⟨hpolicy, -⟩ := hreach'.cursorAt_of_valid hretained
  obtain ⟨common, ancestorId, hgreatest, hpositive, hid, heval⟩ :=
    forkEvaluateHistory_exact hpolicy h h' hfree
  have horder : workOrder s.cumulativeWork t.cumulativeWork ≠ .error ∧
      ¬(workOrder s.cumulativeWork t.cumulativeWork ≠ .current ∧
        workOrder s.cumulativeWork t.cumulativeWork ≠ .candidate ∧
        workOrder s.cumulativeWork t.cumulativeWork ≠ .tie) := by
    simp only [workOrder]
    split
    · simp
    · split <;> simp
  refine ⟨common, ancestorId, hgreatest, hpositive, hid, ?_⟩
  simp only [chainResolveCursorReorg, hcurrent, hretained, if_neg hne, heval, if_neg horder.1,
    if_neg horder.2]
  rfl

/-- The last block of the longest common prefix is the highest common block. -/
theorem highestCommon_of_isGreatest (h : Accepts c current s) (h' : Accepts c retained t)
    (hfree : BlocksCollisionFree c.hashProvider (current ++ retained)) {common : ℕ}
    (hgreatest : IsGreatest (commonLengths current retained) common) (hpositive : 0 < common)
    {ancestorId : Octets 32}
    (hid : ∀ bytes, current[common - 1]? = some bytes →
      chainBlockId bytes c.hashProvider = .ok ancestorId) :
    (UInt64.ofNat (common - 1)).toNat = common - 1 ∧
      HighestCommon c current retained ⟨UInt64.ofNat (common - 1), ancestorId⟩ := by
  obtain ⟨-, hreach⟩ := accepts_iff.mp h
  obtain ⟨-, hreach'⟩ := accepts_iff.mp h'
  obtain ⟨hle, hle', hsame⟩ := hgreatest.1
  have hlt : common - 1 < current.length := by omega
  have hget : current[common - 1]? = some current[common - 1] := List.getElem?_eq_getElem hlt
  have hsplit : current = current.take (common - 1) ++
      current[common - 1] :: current.drop (common - 1 + 1) := by
    rw [← List.drop_eq_getElem_cons hlt, List.take_append_drop]
  obtain ⟨b, hdecode⟩ := hreach.decode_of_mem (List.getElem_mem hlt)
  have hheight : b.header.height.toNat = common - 1 := by
    have hat := hreach
    rw [hsplit] at hat
    rw [hat.height_at hdecode, List.length_take, Nat.min_eq_left (Nat.le_of_lt hlt)]
  have hrollback : UInt64.ofNat (common - 1) = b.header.height := by
    rw [← hheight, UInt64.ofNat_toNat]
  have hin : current[common - 1] ∈ retained := by
    have htake : (retained.take common)[common - 1]? = some current[common - 1] := by
      rw [← hsame, List.getElem?_take_of_lt (by omega), hget]
    exact List.mem_of_mem_take (List.mem_of_getElem? htake)
  refine ⟨by rw [hrollback, hheight], ⟨current[common - 1], b, List.getElem_mem hlt, hin, hdecode,
    hrollback.symm, hid _ hget⟩, ?_⟩
  intro bytes b' hmem hmem' hdecode'
  obtain ⟨past, rest, rest', hpast, -, hlow⟩ :=
    common_of_mem hreach hreach' hfree hgreatest hmem hmem'
  rw [hpast] at hreach
  have hheight' := hreach.height_at hdecode'
  dsimp only
  rw [hrollback, UInt64.le_iff_toNat_le, hheight', hheight]
  omega

/-- A cursor the current history does not have is above the common blocks. -/
theorem QueriesAnswer.cursor_above (hanswer : QueriesAnswer c current) (h' : Accepts c retained t)
    {common : ℕ} (hsame : current.take common = retained.take common)
    (hretained : chainCursorValidate c retained cursor = .valid)
    (hcurrent : chainCursorValidate c current cursor ≠ .valid) :
    common ≤ cursor.height.toNat := by
  obtain ⟨-, hreach'⟩ := accepts_iff.mp h'
  obtain ⟨-, past, bytes, rest, b, pre, rfl, hcursor⟩ := hreach'.cursorAt_of_valid hretained
  by_contra hlow
  have hheight := hreach'.height_at hcursor.decode
  rw [hcursor.height] at hheight
  have htake : (current.take common)[past.length]? = some bytes := by
    rw [hsame, List.getElem?_take_of_lt (by omega), List.getElem?_append_right le_rfl,
      Nat.sub_self]
    rfl
  have hmem : bytes ∈ current := List.mem_of_mem_take (List.mem_of_getElem? htake)
  exact hcurrent (hcursor.validate hmem hanswer)

/-- Where the queries answer, the plan is exact. -/
theorem QueriesAnswer.recoveryExact (hanswer : QueriesAnswer c current) (h : Accepts c current s)
    (h' : Accepts c retained t)
    (hfree : BlocksCollisionFree c.hashProvider (current ++ retained))
    (hretained : chainCursorValidate c retained cursor = .valid)
    (hcurrent : chainCursorValidate c current cursor ≠ .valid) :
    RecoveryExact c current retained cursor := by
  obtain ⟨-, hreach⟩ := accepts_iff.mp h
  obtain ⟨-, hreach'⟩ := accepts_iff.mp h'
  obtain ⟨-, past, bytes, rest, b, pre, -, hcursor⟩ := hreach'.cursorAt_of_valid hretained
  have hdetached := hanswer.detached h hcursor.version hcurrent
  obtain ⟨common, ancestorId, hgreatest, hpositive, hid, hancestor⟩ :=
    chainResolveCursorReorg_eq h h' hfree hdetached hretained
  obtain ⟨hheight, hhighest⟩ :=
    highestCommon_of_isGreatest h h' hfree hgreatest hpositive hid
  obtain ⟨resume, seen, hplan, hresume, hvisits, hrecords⟩ :=
    recovery_resumes h hanswer hancestor
  obtain ⟨hle, hle', hsame⟩ := hgreatest.1
  have habove := hanswer.cursor_above h' hsame hretained hcurrent
  have heligible : EligibleRecords c current
      (historyRecords c s.publicationActivationHeight current) :=
    ⟨hreach.records_pairwise _, fun r hr => publicationAt_of_mem hreach hr,
      fun tx lifecycle r hr => mem_historyRecords_iff h hanswer hr⟩
  refine ⟨_, resume, hplan, hhighest, _, seen, heligible, hresume, hvisits, hrecords, ?_⟩
  intro consumed hconsumed
  -- A record the rollback keeps is one the consumer has come to.
  have hkept : (consumed.filter fun r => !decide (cursor.Before r.2) &&
      CursorAncestor.keeps ⟨UInt64.ofNat (common - 1), ancestorId⟩ r) =
        consumed.filter (CursorAncestor.keeps ⟨UInt64.ofNat (common - 1), ancestorId⟩) := by
    apply List.filter_congr
    intro r _
    by_cases hkeep : r.2.height ≤ UInt64.ofNat (common - 1)
    · have hnot : ¬ cursor.Before r.2 := by
        intro hbefore
        have hlow := UInt64.le_iff_toNat_le.mp (UInt64.le_trans hbefore.height_le hkeep)
        omega
      simp [hnot]
    · simp [CursorAncestor.keeps, hkeep]
  -- The common blocks decide the records the rollback keeps.
  have hfront := List.take_append_drop common current
  have hfront' : current.take common ++ retained.drop common = retained := by
    rw [hsame, List.take_append_drop]
  have hlength : (current.take common).length = common := by
    rw [List.length_take, Nat.min_eq_left hle]
  have hrecords' : EligibleRecords c (current.take common ++ current.drop common)
      (historyRecords c s.publicationActivationHeight current) := by
    rw [hfront]
    exact heligible
  rw [← hfront] at hreach
  rw [← hfront'] at hreach' hconsumed
  have hlow : (UInt64.ofNat (common - 1)).toNat < (current.take common).length := by omega
  have hagree := EligibleRecords.common hreach hreach' hrecords' hconsumed hlow
  rw [hkept]
  exact (congrArg (· ++ seen) hagree.symm).trans hrecords

/-! ## Histories the queries fail on -/

/-- A consumer that comes to the end was answered so by some query. -/
theorem Enumerates.atEnd_query {result : NextResult} {seen : List (RecordMatch × ChainCursor)}
    (h : Enumerates c current result seen) :
    result = .atEnd ∨ ∃ position, chainNextRecord c current position = .atEnd := by
  induction h with
  | atEnd => exact .inl rfl
  | @record found position records _ ih =>
      rcases ih with hend | hlater
      · exact .inr ⟨position, hend⟩
      · exact .inr hlater

theorem recordSearch_of_atEnd {position : ChainCursor}
    (h : chainNextRecord c current position = .atEnd) :
    recordSearch c current { after := some position } = .ok none := by
  simp only [chainNextRecord] at h
  split at h <;> try cases h
  split at h <;> first | assumption | cases h

theorem recordSearch_of_first_atEnd (h : (chainFirstRecord c current).toNext = .atEnd) :
    recordSearch c current {} = .ok none := by
  simp only [chainFirstRecord] at h
  split at h <;> first | assumption | cases h

/-- A search that comes to the end has passed over lifecycle transactions only. -/
theorem lifecycle_of_recordSearch (h : Accepts c current s) {k : SearchKey}
    (hsearch : recordSearch c current k = .ok none) :
    ∀ tx ∈ historyTransactions current, tx.type.isLifecycle = true := by
  obtain ⟨-, hreach⟩ := accepts_iff.mp h
  intro tx htx
  by_contra htype
  have htype : tx.type.isLifecycle = false := by simpa using htype
  simp only [recordSearch] at hsearch
  split at hsearch
  · cases hsearch
  split at hsearch
  · cases hsearch
  split at hsearch
  · split at hsearch <;> cases hsearch
  next last _ =>
  split at hsearch
  · cases hsearch
  next total grants _ =>
  split at hsearch
  · next w hwalk =>
      rw [foldlM_searchBlock fun bytes hbytes => hreach.decode_of_mem hbytes] at hwalk
      obtain ⟨bytes, hbytes, htx⟩ := List.mem_flatMap.mp htx
      obtain ⟨t, ht, hdecode⟩ := mem_decodedTransactions.mp htx
      obtain ⟨past, rest, rfl⟩ := List.append_of_mem hbytes
      obtain ⟨b, hblock⟩ := hreach.decode_of_mem hbytes
      rw [blockTransactions_of_decode hblock] at ht
      obtain ⟨pre, post, hsplit⟩ := List.append_of_mem ht
      obtain ⟨back, hentries⟩ := historyEntries_at past rest hblock hsplit
      rw [hentries] at hwalk
      obtain ⟨u, -, hrest⟩ := foldlM_append_eq_ok.mp hwalk
      obtain ⟨u', hround, -⟩ := foldlM_cons_eq_ok.mp hrest
      rw [searchEntry, searchTransaction_fails hdecode htype] at hround
      cases hround
  · cases hsearch
  · cases hsearch

/-- The plan for a cursor a reorganization detached is exact if and only if the transactions of
the current history are all of the lifecycle. -/
theorem recovery_exact_iff (htotal : c.hashProvider.Total) (h : Accepts c current s)
    (h' : Accepts c retained t)
    (hfree : BlocksCollisionFree c.hashProvider (current ++ retained))
    (hretained : chainCursorValidate c retained cursor = .valid)
    (hcurrent : chainCursorValidate c current cursor ≠ .valid) :
    RecoveryExact c current retained cursor ↔
      ∀ tx ∈ historyTransactions current, tx.type.isLifecycle = true := by
  constructor
  · rintro ⟨rollback, resume, -, hexact⟩
    obtain ⟨records, seen, -, -, hvisits, -⟩ := hexact.resumes
    rcases hvisits.atEnd_query with hend | ⟨position, hend⟩
    · cases resume with
      | none => exact lifecycle_of_recordSearch h (recordSearch_of_first_atEnd hend)
      | some resume => exact lifecycle_of_recordSearch h (recordSearch_of_atEnd hend)
    · exact lifecycle_of_recordSearch h (recordSearch_of_atEnd hend)
  · intro hlifecycle
    obtain ⟨-, hreach'⟩ := accepts_iff.mp h'
    obtain ⟨hpolicy, -⟩ := hreach'.cursorAt_of_valid hretained
    have hanswer := (queriesAnswer_iff htotal h).mpr ⟨hpolicy, hlifecycle⟩
    exact hanswer.recoveryExact h h' hfree hretained hcurrent

end Recovery

end

/-! ## A fork above the genesis block -/

namespace Sample

/-- The digests of two blocks on one parent. -/
def forkDigests : List (ℕ × ℕ) :=
  [(0xb486d23228afac8,
      0x9a787dd326c15eaf0e2f8d9de64308a1d87646923573d3fd9ddd1fc4e99e17c5),
   (0x964a6789750c736,
      0x000c07cf1c667fb0d5f88b51971a868aac011caa0654b2977be8e200d1b176e0),
   (0x1ffd21d7d740b17e,
      0x2dc099bc8fd9efe1f6b805b94fe971971a1afee209c8625904dd190c0e5a9a42),
   (0x1f2e2eeede099688,
      0x07cef3640ef3a35b146aac7415dd58ebfe863a42d18f27827419f9b0d2ca5689)]

/-- The library calls with the digests of the fork. -/
@[reducible] def forking : Primitives where
  sha256 domain bytes := .ok (BitVec.ofNat 256
    (((forkDigests ++ digests).lookup
      (BigEndian.read (domain ++ bytes) % (2 ^ 61 - 1))).getD 1))
  ed25519Verify _ _ _ := false

/-- The context of the fork. -/
def forkContext : ChainContext :=
  { context with hashProvider := ⟨some forking.sha256⟩ }

/-- A block with a compensation destination. -/
def leftFork : Bytes :=
  block genesisId 1 0x9a787dd326c15eaf0e2f8d9de64308a1d87646923573d3fd9ddd1fc4e99e17c5 14
    [destination alice]

/-- Another block on the same parent. -/
def rightFork : Bytes :=
  block genesisId 1 0x2dc099bc8fd9efe1f6b805b94fe971971a1afee209c8625904dd190c0e5a9a42 10
    [destination bob]

/-- The cursor at the transaction of the other block. -/
def rightCursor : ChainCursor :=
  ⟨chainCursorVersion, 1, 0x07cef3640ef3a35b146aac7415dd58ebfe863a42d18f27827419f9b0d2ca5689, 0⟩

end Sample

section Sample

attribute [local instance] Sample.forking

open Sample

theorem forkContext_total : forkContext.hashProvider.Total :=
  ⟨forking.sha256, rfl, fun _ _ => ⟨_, rfl⟩⟩

theorem accepts_right : ∃ t, Accepts forkContext [genesis, rightFork] t :=
  accepts_of_isSome (by decide +kernel)

theorem rightCursor_valid :
    chainCursorValidate forkContext [genesis, rightFork] rightCursor = .valid := by
  decide +kernel

/-- A consumer whose cursor was detached gets no plan on a history with a compensation
destination. -/
theorem sample_recovery_unavailable :
    ¬ ∀ (c : ChainContext), c.hashProvider.Total → ∀ (current retained : List Bytes)
      (s t : ChainState) (cursor : ChainCursor), Accepts c current s → Accepts c retained t →
      BlocksCollisionFree c.hashProvider (current ++ retained) →
      chainCursorValidate c retained cursor = .valid →
      chainCursorValidate c current cursor ≠ .valid → RecoveryExact c current retained cursor := by
  intro h
  obtain ⟨s, hs⟩ : ∃ s, Accepts forkContext [genesis, leftFork] s :=
    accepts_of_isSome (by decide +kernel)
  obtain ⟨t, ht⟩ := accepts_right
  have hfree : BlocksCollisionFree forkContext.hashProvider
      ([genesis, leftFork] ++ [genesis, rightFork]) :=
    ⟨by unfold CollisionFree; decide +kernel, by unfold CollisionFree; decide +kernel⟩
  obtain ⟨rollback, resume, hplan, -⟩ := h forkContext forkContext_total _ _ s t rightCursor hs ht
    hfree rightCursor_valid (by decide +kernel)
  have hprovider : (match chainBuildConsumerRecoveryPlan forkContext
      [genesis, leftFork] [genesis, rightFork] rightCursor with
        | .provider => true
        | _ => false) = true := by
    decide +kernel
  rw [hplan] at hprovider
  cases resume with
  | none => cases hprovider
  | some resume => cases hprovider

theorem sample_recovery_exact : RecoveryExact forkContext [genesis, empty]
    [genesis, rightFork] rightCursor := by
  obtain ⟨s, hs⟩ : ∃ s, Accepts forkContext [genesis, empty] s :=
    accepts_of_isSome (by decide +kernel)
  obtain ⟨t, ht⟩ := accepts_right
  have hfree : BlocksCollisionFree forkContext.hashProvider
      ([genesis, empty] ++ [genesis, rightFork]) :=
    ⟨by unfold CollisionFree; decide +kernel, by unfold CollisionFree; decide +kernel⟩
  have hlifecycle : ∀ tx ∈ historyTransactions [genesis, empty],
      tx.type.isLifecycle = true := by
    decide +kernel
  exact (recovery_exact_iff forkContext_total hs ht hfree rightCursor_valid
    (by decide +kernel)).mpr hlifecycle

end Sample

end StnChain
