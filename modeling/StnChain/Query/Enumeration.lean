import StnChain.Chain.Revocations
import StnChain.Query.Availability
import StnChain.Support.SelectiveScan

/-!
# Enumeration of the records

The record queries of `stn_chain.c` select from one walk over the accepted history.
What that walk sees does not depend on the query, so the records a caller visits from
cursor to cursor are the eligible publications, and a lookup answers the first of them
with its identifier.
-/

namespace StnChain

open EarlyExit SelectiveScan

section

variable [Primitives]

/-! ## The entries of a walk -/

/-- A transaction of a history, its position, and the block it stands in. -/
structure SearchEntry where
  bytes : Bytes
  height : UInt64
  transaction : Bytes
  position : ℕ

/-- The entries of a decoded block. -/
def entriesOf (bytes : Bytes) (height : UInt64) (transactions : List Bytes) (position : ℕ) :
    List SearchEntry :=
  (transactions.zipIdx position).map fun t => ⟨bytes, height, t.1, t.2⟩

/-- The entries of a block. -/
def blockEntries (bytes : Bytes) : List SearchEntry :=
  match blockDecode bytes with
  | .error _ => []
  | .ok b => entriesOf bytes b.header.height b.transactions 0

/-- The entries of a history. -/
def historyEntries (blocks : List Bytes) : List SearchEntry :=
  blocks.flatMap blockEntries

/-- One round of the walk over an entry. -/
def searchEntry (c : ChainContext) (activation : UInt64) (k : SearchKey) (w : SearchState)
    (e : SearchEntry) : Except SearchExit SearchState :=
  searchTransaction c activation k e.bytes e.height w (e.transaction, e.position)

theorem foldlM_searchTransaction (c : ChainContext) (activation : UInt64) (k : SearchKey)
    (bytes : Bytes) (height : UInt64) (ts : List Bytes) (position : ℕ) (w : SearchState) :
    (ts.zipIdx position).foldlM (searchTransaction c activation k bytes height) w =
      (entriesOf bytes height ts position).foldlM (searchEntry c activation k) w := by
  rw [entriesOf, List.foldlM_map]
  rfl

/-- The walk over a history of decoded blocks is the walk over its entries. -/
theorem foldlM_searchBlock {blocks : List Bytes}
    (h : ∀ bytes ∈ blocks, ∃ b, blockDecode bytes = .ok b) (c : ChainContext)
    (activation : UInt64) (k : SearchKey) (w : SearchState) :
    blocks.foldlM (searchBlock c activation k) w =
      (historyEntries blocks).foldlM (searchEntry c activation k) w := by
  induction blocks generalizing w with
  | nil => rfl
  | cons bytes rest ih =>
      obtain ⟨⟨b, hdecode⟩, hrest⟩ := List.forall_mem_cons.mp h
      have hblock : blockEntries bytes = entriesOf bytes b.header.height b.transactions 0 := by
        simp only [blockEntries, hdecode]
      rw [List.foldlM_cons, historyEntries, List.flatMap_cons, List.foldlM_append, hblock,
        ← foldlM_searchTransaction]
      simp only [searchBlock, hdecode]
      congr 1
      funext w'
      exact ih hrest w'

/-- What the walk needs to know of an entry: its block has an identifier, and its position
is one a cursor can hold. -/
structure SearchEntry.Sound (e : SearchEntry) (c : ChainContext) : Prop where
  identified : ∃ id, chainBlockId e.bytes c.hashProvider = .ok id
  position : e.position < 2 ^ 32 - 1

omit [Primitives] in
theorem mem_entriesOf {bytes : Bytes} {height : UInt64} {ts : List Bytes} {position : ℕ}
    {e : SearchEntry} (h : e ∈ entriesOf bytes height ts position) :
    e.bytes = bytes ∧ e.height = height ∧ e.position < ts.length + position := by
  obtain ⟨t, ht, rfl⟩ := List.mem_map.mp h
  exact ⟨rfl, rfl, List.snd_lt_of_mem_zipIdx ht⟩

theorem Reaches.entries_sound {c : ChainContext} {blocks : List Bytes} {s : ChainState}
    (h : Reaches c blocks s) : ∀ e ∈ historyEntries blocks, e.Sound c := by
  intro e he
  obtain ⟨bytes, hbytes, he⟩ := List.mem_flatMap.mp he
  obtain ⟨b, hdecode⟩ := h.decode_of_mem hbytes
  simp only [blockEntries, hdecode] at he
  obtain ⟨rfl, -, hposition⟩ := mem_entriesOf he
  have hcount := b.header.transactionCount.toNat_lt
  rw [← b.length_transactions] at hcount
  exact ⟨h.blockId_of_mem hbytes, by omega⟩

/-! ## What the walk sees -/

/-- The record a query sees at an entry whose publication is eligible. -/
def SearchState.seen (c : ChainContext) (w : SearchState) (e : SearchEntry) :
    Option (RecordMatch × ChainCursor) :=
  match transactionDecode e.transaction with
  | .error _ => none
  | .ok tx =>
      if tx.type = .publication ∧
          lifecycleCheckPublication { w.historical with replay := w.eligible } tx.record
            c.hashProvider = .ok then
        match recordId tx.record c.hashProvider, chainBlockId e.bytes c.hashProvider with
        | .ok id, .ok blockId => some (⟨id, e.height, blockId, e.transaction⟩,
            ⟨chainCursorVersion, e.height, blockId, UInt32.ofNat e.position⟩)
        | _, _ => none
      else none

/-- What a search selects among the records it sees. -/
def SearchKey.selectsRecord (k : SearchKey) (r : RecordMatch × ChainCursor) : Bool :=
  k.selects r.1.recordId r.2.height r.2.transactionPosition.toNat

/-- The search after the last cursor there is, which passes over every entry. -/
def endKey : SearchKey where
  after := some ⟨chainCursorVersion, UInt64.ofNat (2 ^ 64 - 1), 0, UInt32.ofNat (2 ^ 32 - 1)⟩

omit [Primitives] in
theorem endKey_selects {e : SearchEntry} {c : ChainContext} [Primitives] (h : e.Sound c)
    (id : Octets 32) : endKey.selects id e.height e.position = false := by
  have hheight : ¬ UInt64.ofNat (2 ^ 64 - 1) < e.height := by
    have := e.height.toNat_lt
    rw [UInt64.lt_iff_toNat_lt]
    simp only [UInt64.toNat_ofNat']
    omega
  have hposition := h.position
  simp only [endKey, SearchKey.selects, Option.isNone_none, Option.isNone_some, Bool.and_false,
    reduceCtorEq, decide_false, Bool.or_false, Bool.false_or, hheight]
  simp
  omega

/-- A round returns the record it sees if its search selects it, and passes otherwise. -/
theorem searchEntry_eq {c : ChainContext} {e : SearchEntry} (h : e.Sound c)
    (activation : UInt64) (k : SearchKey) (w : SearchState) :
    searchEntry c activation k w e =
      leaveOr (fun r => SearchExit.found r.1 r.2) ((w.seen c e).filter k.selectsRecord)
        (searchEntry c activation endKey w e) := by
  obtain ⟨blockId, hblockId⟩ := h.identified
  have hposition : (UInt32.ofNat e.position).toNat = e.position := by
    have := h.position
    simp only [UInt32.toNat_ofNat']
    omega
  have hend := endKey_selects h
  simp only [searchEntry, searchTransaction, SearchState.seen]
  cases hdecode : transactionDecode e.transaction with
  | error status => rfl
  | ok tx =>
      by_cases htype : tx.type = .publication
      · simp only [htype, ↓reduceIte, true_and, observePublication]
        cases hcheck : lifecycleCheckPublication { w.historical with replay := w.eligible }
            tx.record c.hashProvider with
        | ok =>
            simp only [↓reduceIte]
            cases hrecord : recordId tx.record c.hashProvider with
            | error status => rfl
            | ok id =>
                simp only [hblockId, hend, Option.filter, SearchKey.selectsRecord, hposition]
                cases hselects : k.selects id e.height e.position with
                | true => rfl
                | false => rfl
        | _ => rfl
      · simp only [htype, ↓reduceIte, false_and]
        rfl

/-! ## The replay identifiers a query has seen -/

/-- The replay identifier of a publication. -/
def Transaction.replayId (tx : Transaction) : Option ReplayId :=
  match recordDecode tx.record with
  | .error _ => none
  | .ok record => replayIdFromSignerNonce record.signerPublicKey record.nonce

/-- The replay identifiers of matched publications. -/
def replayIds (records : List (RecordMatch × ChainCursor)) : List ReplayId :=
  records.filterMap fun r =>
    match transactionDecode r.1.transaction with
    | .error _ => none
    | .ok tx => tx.replayId

/-- The eligible set holds what the accepted blocks consumed and the identifiers of the
records seen, with room for `n` further entries. -/
structure SearchState.Holds (n : ℕ) (w : SearchState) (records : List (RecordMatch × ChainCursor)) :
    Prop where
  room : w.eligible.consumed.length + n ≤ w.eligible.capacity
  mem_iff : ∀ id, id ∈ w.eligible.consumed ↔
    id ∈ w.historical.replay.consumed ∨ id ∈ replayIds records

/-- Advancing the accepted lifecycle consumes its identifier among the eligible ones. -/
theorem advanceHistorical_eq_ok {c : ChainContext} {tx : Transaction} {w w' : SearchState}
    (h : advanceHistorical c tx w = .ok w') :
    ∃ id, lifecycleApplyTransaction w.historical tx c.genesisAuthorityRoots c.hashProvider =
        (.ok, w'.historical) ∧
      w'.historical.replay.consumed = w.historical.replay.consumed ++ [id] ∧
      w'.eligible = (replayStateConsume w.eligible id).2 := by
  simp only [advanceHistorical] at h
  split at h
  · next historical happly =>
      obtain ⟨id, hreplay⟩ := (lifecycleApplyTransaction_eq_ok happly).replay
      have hconsumed : historical.replay.consumed = w.historical.replay.consumed ++ [id] := by
        rw [hreplay]
      rw [hconsumed, List.getLast?_concat] at h
      dsimp only at h
      split at h
      · cases h
      · next eligible _ hconsume =>
          obtain rfl := Except.ok.inj h
          exact ⟨id, happly, hconsumed, by rw [hconsume]⟩
  · cases h

/-- A publication consumes its replay identifier. -/
theorem lifecycleApplyTransaction_replayId {s s' : LifecycleState} {tx : Transaction}
    (htype : tx.type = .publication) {roots : List (Octets 32)} {provider : HashProvider}
    (h : lifecycleApplyTransaction s tx roots provider = (.ok, s')) :
    ∃ id, tx.replayId = some id ∧
      s' = { s with replay := { s.replay with consumed := s.replay.consumed ++ [id] } } := by
  simp only [lifecycleApplyTransaction, htype] at h
  split at h
  · cases (Prod.mk.inj h).1
  next record hdecode =>
  obtain ⟨id, hid, -, rfl⟩ := consumeReplayId_eq_ok h
  exact ⟨id, by simp only [Transaction.replayId, hdecode, hid], rfl⟩

/-- An observed publication that is passed over is not seen, or its identifier joins the
eligible ones. -/
theorem observePublication_pass {c : ChainContext} {e : SearchEntry} (h : e.Sound c)
    {tx : Transaction} (hdecode : transactionDecode e.transaction = .ok tx)
    (htype : tx.type = .publication) {w w' : SearchState}
    (hpass : observePublication c endKey e.bytes e.height e.position e.transaction tx w = .ok w') :
    w'.historical = w.historical ∧ (w.seen c e = none ∧ w' = w ∨
      ∃ r id, w.seen c e = some r ∧ r.1.transaction = e.transaction ∧ tx.replayId = some id ∧
        w'.eligible = { w.eligible with consumed := w.eligible.consumed ++ [id] }) := by
  obtain ⟨blockId, hblockId⟩ := h.identified
  simp only [observePublication, endKey_selects h] at hpass
  simp only [SearchState.seen, hdecode, htype, true_and]
  split at hpass
  · cases hpass
  · cases hpass
  · next hcheck =>
      simp only [hcheck, ↓reduceIte]
      split at hpass
      · cases hpass
      next rid hrid =>
      simp only [Bool.false_eq_true, ↓reduceIte] at hpass
      split at hpass
      · next observed happly =>
          obtain rfl := Except.ok.inj hpass
          obtain ⟨id, hid, rfl⟩ := lifecycleApplyTransaction_replayId htype happly
          refine ⟨rfl, .inr ⟨(⟨rid, e.height, blockId, e.transaction⟩,
            ⟨chainCursorVersion, e.height, blockId, UInt32.ofNat e.position⟩), id, ?_, rfl, hid,
            rfl⟩⟩
          simp only [hrid, hblockId]
      · cases hpass
  · next hcheck =>
      obtain rfl := Except.ok.inj hpass
      exact ⟨rfl, .inl ⟨if_neg hcheck, rfl⟩⟩

omit [Primitives] in
/-- Consuming an identifier with room for it adds just this identifier. -/
theorem replayStateConsume_mem {s : ReplayState} {id : ReplayId}
    (h : id ∈ s.consumed ∧ s.consumed.length ≤ s.capacity ∨ s.consumed.length < s.capacity) :
    (∀ x, x ∈ (replayStateConsume s id).2.consumed ↔ x ∈ s.consumed ∨ x = id) ∧
      (replayStateConsume s id).2.capacity = s.capacity ∧
      (id ∈ s.consumed → (replayStateConsume s id).2 = s) ∧
      (replayStateConsume s id).2.consumed.length ≤ s.consumed.length + 1 := by
  by_cases hmem : id ∈ s.consumed
  · have hlength : s.consumed.length ≤ s.capacity := by omega
    rw [replayStateConsume_of_mem hlength hmem]
    exact ⟨fun x => ⟨.inl, fun hx => hx.elim (fun hin => hin) fun heq => heq ▸ hmem⟩,
      rfl, fun _ => rfl, Nat.le_succ _⟩
  · have hlength := h.resolve_left fun hin => hmem hin.1
    rw [replayStateConsume_of_lt hlength, if_neg hmem]
    simp [hmem]

/-- Advancing the accepted lifecycle keeps what the eligible set holds, if there is room
for one identifier or the identifier is there. -/
theorem SearchState.Holds.advance {c : ChainContext} {tx : Transaction} {n : ℕ}
    {w w' : SearchState} {records : List (RecordMatch × ChainCursor)} (h : w.Holds n records)
    (hroom : w.eligible.consumed.length + (n + 1) ≤ w.eligible.capacity ∨
      tx.type = .publication ∧ ∃ id ∈ w.eligible.consumed, tx.replayId = some id)
    (hadvance : advanceHistorical c tx w = .ok w') : w'.Holds n records := by
  obtain ⟨id, happly, hconsumed, heligible⟩ := advanceHistorical_eq_ok hadvance
  have hspace := h.room
  have hknown : tx.type = .publication → tx.replayId = some id := by
    intro htype
    obtain ⟨id', hid', hreplay⟩ := lifecycleApplyTransaction_replayId htype happly
    have hlast := congrArg (fun s => s.replay.consumed.getLast?) hreplay
    simp only [hconsumed, List.getLast?_concat, Option.some.injEq] at hlast
    rw [hlast, hid']
  have hmember : id ∈ w.eligible.consumed ∧ w.eligible.consumed.length ≤ w.eligible.capacity ∨
      w.eligible.consumed.length < w.eligible.capacity := by
    rcases hroom with hroom | ⟨htype, id', hmem, hid'⟩
    · exact .inr (by omega)
    · obtain rfl := Option.some.inj (hid'.symm.trans (hknown htype))
      exact .inl ⟨hmem, by omega⟩
  obtain ⟨hmem, hcapacity, hsame, hlength⟩ := replayStateConsume_mem hmember
  constructor
  · rcases hroom with hroom | ⟨htype, id', hmem', hid'⟩
    · rw [heligible, hcapacity]
      omega
    · obtain rfl := Option.some.inj (hid'.symm.trans (hknown htype))
      rw [heligible, hsame hmem']
      exact hspace
  · intro x
    rw [heligible, hmem, h.mem_iff, hconsumed, List.mem_append, List.mem_singleton]
    tauto

/-- A passed entry keeps what the eligible set holds. -/
theorem searchEntry_holds {c : ChainContext} {activation : UInt64} {e : SearchEntry}
    (he : e.Sound c) {n : ℕ} {w w' : SearchState} {records : List (RecordMatch × ChainCursor)}
    (h : w.Holds (n + 1) records) (hpass : searchEntry c activation endKey w e = .ok w') :
    w'.Holds n (records ++ (w.seen c e).toList) := by
  have hroom := h.room
  have hsmaller : w.Holds n records := ⟨by omega, h.mem_iff⟩
  simp only [searchEntry, searchTransaction] at hpass
  split at hpass
  · cases hpass
  next tx hdecode =>
  by_cases htype : tx.type = .publication
  · rw [if_pos htype] at hpass
    obtain ⟨w₁, hobserve, hnext⟩ := bind_eq_ok_iff.mp hpass
    obtain ⟨hhistorical, ⟨hunseen, rfl⟩ | ⟨r, id, hseen, htransaction, hid, heligible⟩⟩ :=
      observePublication_pass he hdecode htype hobserve
    · rw [hunseen, Option.toList_none, List.append_nil]
      split at hnext
      · obtain rfl := Except.ok.inj hnext
        exact hsmaller
      · exact hsmaller.advance (.inl hroom) hnext
    · have hids : replayIds (records ++ [r]) = replayIds records ++ [id] := by
        simp only [replayIds, List.filterMap_append, List.filterMap_cons, htransaction, hdecode,
          hid, List.filterMap_nil]
      have hseenHolds : w₁.Holds n (records ++ [r]) := by
        constructor
        · rw [heligible, List.length_append, List.length_singleton]
          dsimp only
          omega
        · intro x
          rw [heligible, hhistorical, hids]
          dsimp only
          rw [List.mem_append, List.mem_append, h.mem_iff, List.mem_singleton, or_assoc]
      rw [hseen, Option.toList_some]
      split at hnext
      · obtain rfl := Except.ok.inj hnext
        exact hseenHolds
      · refine hseenHolds.advance (.inr ⟨htype, id, ?_, hid⟩) hnext
        rw [heligible]
        exact List.mem_append_right _ List.mem_cons_self
  · rw [if_neg htype] at hpass
    have hunseen : w.seen c e = none := by
      simp only [SearchState.seen, hdecode, htype, false_and, ↓reduceIte]
    rw [hunseen, Option.toList_none, List.append_nil]
    exact hsmaller.advance (.inl hroom) hpass

/-! ## The walk beside the accepted lifecycle -/

theorem SearchFollows.mono {c : ChainContext} {lifecycle : LifecycleState} {m n m' n' : ℕ}
    {w : SearchState} (h : SearchFollows c lifecycle m n w) (hm : m' ≤ m) (hn : n' ≤ n) :
    SearchFollows c lifecycle m' n' w := by
  have hgrants := h.room.grants
  have hreplays := h.room.replays
  have heligible := h.eligible
  exact ⟨h.historical, h.valid, ⟨by omega, by omega⟩, by omega⟩

/-- The state the walk of a query starts from. -/
def searchStart (c : ChainContext) (blocks : List Bytes) : SearchState :=
  searchInitial c (historyTransactions blocks).length (grantsOf (historyTransactions blocks)).length

theorem blockEntries_of_decode {bytes : Bytes} {b : Block} (h : blockDecode bytes = .ok b) :
    blockEntries bytes = entriesOf bytes b.header.height b.transactions 0 := by
  simp only [blockEntries, h]

/-- The walk before a transaction has followed the lifecycle accepted before it. -/
theorem RoundAt.search_follows {c : ChainContext} {past rest : List Bytes} {bytes : Bytes}
    {pre post : List Bytes} {t : Bytes} {tx : Transaction} {before after : ChainState}
    (h : RoundAt c past bytes pre tx before after) {b : Block} (hdecode : blockDecode bytes = .ok b)
    (hsplit : b.transactions = pre ++ t :: post)
    (hlifecycle : ∀ tx ∈ historyTransactions (past ++ bytes :: rest), tx.type.isLifecycle = true)
    {activation : UInt64} (hactivation : chainPublicationActivation c = .ok activation)
    {w : SearchState}
    (hwalk : (historyEntries past ++ entriesOf bytes b.header.height pre 0).foldlM
      (searchEntry c activation endKey) (searchStart c (past ++ bytes :: rest)) = .ok w) :
    ∃ grants replays, w.historical = lifecycleRebind before.lifecycle grants replays := by
  obtain ⟨prior, b', flags, candidate, _, _, hprior, hprepared, hpre, -⟩ := h
  obtain rfl := Except.ok.inj (hdecode.symm.trans hprepared.decode)
  obtain rfl : prior.publicationActivationHeight = activation :=
    Except.ok.inj (hprior.activation.symm.trans hactivation)
  obtain ⟨-, -, -, -, -, -, hinherit⟩ := hprepared.next_state
  have hbody := historyTransactions_singleton hprepared.decode
  have hall : historyTransactions (past ++ bytes :: rest) =
      historyTransactions past ++
        (decodedTransactions b.transactions ++ historyTransactions rest) := by
    rw [historyTransactions_append, historyTransactions_cons, hbody]
  obtain ⟨u, hu, hw⟩ := foldlM_append_eq_ok.mp hwalk
  -- Before the block the walk has followed the prior state.
  have hpast := hprior.search_follows
    (fun tx htx => hlifecycle tx (hall ▸ List.mem_append_left _ htx)) endKey
    (grantsOf (decodedTransactions b.transactions ++ historyTransactions rest)).length
    (decodedTransactions b.transactions ++ historyTransactions rest).length
  rw [foldlM_searchBlock (fun other hother => hprior.decode_of_mem hother)] at hpast
  have hstart : searchStart c (past ++ bytes :: rest) = searchInitial c
      ((historyTransactions past).length +
        (decodedTransactions b.transactions ++ historyTransactions rest).length)
      ((grantsOf (historyTransactions past)).length +
        (grantsOf (decodedTransactions b.transactions ++ historyTransactions rest)).length) := by
    rw [searchStart, hall]
    simp only [grantsOf, List.flatMap_append, List.length_append]
  rw [← hstart, hu] at hpast
  have hfollows : SearchFollows c prior.lifecycle _ _ u := hpast
  -- Inside the block it follows the transactions before this one.
  have hdecoded : decodedTransactions b.transactions =
      decodedTransactions pre ++ decodedTransactions (t :: post) := by
    rw [hsplit, decodedTransactions, List.filterMap_append]
    rfl
  have hlength := length_decodedTransactions fun x hx =>
    Block.decode_transactions hprepared.decode x (hsplit ▸ List.mem_append_left _ hx)
  have hroom := (hprepared.room (some past)).mono
    (show (grantsOf (decodedTransactions pre)).length ≤ b.transactions.length by
      have := length_grantsOf_le (decodedTransactions pre)
      rw [hsplit, List.length_append]
      omega)
    (show pre.length ≤ b.transactions.length by
      rw [hsplit, List.length_append]
      omega)
  have hblock := hpre.search_follows (k := endKey) (hprepared.blockOf past) (fun tx htx => by
      have hin : tx ∈ decodedTransactions b.transactions := hdecoded ▸ List.mem_append_left _ htx
      exact ⟨hbody ▸ hin, hlifecycle tx
        (hall ▸ List.mem_append_right _ (List.mem_append_left _ hin))⟩)
    hroom (m := 0) (n := 0) 0 ((hfollows.inherit hinherit).mono
      (by simp only [hdecoded, grantsOf, List.flatMap_append, List.length_append]; omega)
      (by simp only [hdecoded, List.length_append, hlength]; omega))
  have hheader : (candidateEnv c prior (some past) b flags).header = b.header := rfl
  rw [hheader, foldlM_searchTransaction, hw] at hblock
  exact SearchFollows.historical hblock

/-! ## The order of the entries -/

/-- One cursor stands before another. -/
def ChainCursor.Before (p q : ChainCursor) : Prop :=
  p.height < q.height ∨ p.height = q.height ∧ p.transactionPosition < q.transactionPosition

instance : DecidableRel ChainCursor.Before := fun p q =>
  inferInstanceAs (Decidable (p.height < q.height ∨
    p.height = q.height ∧ p.transactionPosition < q.transactionPosition))

omit [Primitives] in
theorem ChainCursor.Before.irrefl (p : ChainCursor) : ¬ p.Before p := by
  rintro (h | ⟨-, h⟩)
  · exact UInt64.lt_irrefl _ h
  · exact UInt32.lt_irrefl _ h

omit [Primitives] in
theorem ChainCursor.Before.asymm {p q : ChainCursor} (h : p.Before q) : ¬ q.Before p := by
  intro h'
  simp only [ChainCursor.Before, UInt64.lt_iff_toNat_lt, UInt32.lt_iff_toNat_lt,
    ← UInt64.toNat_inj] at h h'
  omega

/-- One entry stands before another. -/
def SearchEntry.Before (e e' : SearchEntry) : Prop :=
  e.height < e'.height ∨ e.height = e'.height ∧ e.position < e'.position

omit [Primitives] in
theorem entriesOf_pairwise (bytes : Bytes) (height : UInt64) (ts : List Bytes) (position : ℕ) :
    (entriesOf bytes height ts position).Pairwise SearchEntry.Before := by
  induction ts generalizing position with
  | nil => exact .nil
  | cons t ts ih =>
      refine List.pairwise_cons.mpr ⟨fun e he => ?_, ih (position + 1)⟩
      obtain ⟨t', ht', rfl⟩ := List.mem_map.mp he
      exact .inr ⟨rfl, List.le_snd_of_mem_zipIdx ht'⟩

/-- The entries of an accepted history ascend. -/
theorem Reaches.entries_pairwise {c : ChainContext} {blocks : List Bytes} {s : ChainState}
    (h : Reaches c blocks s) : (historyEntries blocks).Pairwise SearchEntry.Before := by
  have hall : (historyEntries blocks).Pairwise SearchEntry.Before ∧
      ∀ e ∈ historyEntries blocks, e.height.toNat < blocks.length := by
    refine h.invariant (P := fun blocks _ => (historyEntries blocks).Pairwise SearchEntry.Before ∧
      ∀ e ∈ historyEntries blocks, e.height.toNat < blocks.length) ?_ ?_
    · exact fun _ _ => ⟨.nil, fun e he => by cases he⟩
    · intro past s bytes b flags candidate s' hs ⟨hpast, hheights⟩ hprepared _
      have hheight := hprepared.height_eq hs.tipOf
      have hentries : historyEntries (past ++ [bytes]) =
          historyEntries past ++ entriesOf bytes b.header.height b.transactions 0 := by
        rw [historyEntries, List.flatMap_append, List.flatMap_singleton,
          blockEntries_of_decode hprepared.decode]
        rfl
      rw [hentries]
      constructor
      · refine List.pairwise_append.mpr ⟨hpast, entriesOf_pairwise _ _ _ _, ?_⟩
        intro e he e' he'
        obtain ⟨-, hheight', -⟩ := mem_entriesOf he'
        refine .inl (UInt64.lt_iff_toNat_lt.mpr ?_)
        rw [hheight', hheight]
        exact hheights e he
      · intro e he
        rw [List.length_append, List.length_singleton]
        rcases List.mem_append.mp he with he | he
        · exact Nat.lt_succ_of_lt (hheights e he)
        · obtain ⟨-, hheight', -⟩ := mem_entriesOf he
          rw [hheight', hheight]
          exact Nat.lt_succ_self _
  exact hall.1

omit [Primitives] in
/-- An entry of a block is one of its transactions. -/
theorem entriesOf_split {bytes : Bytes} {height : UInt64} {ts : List Bytes} {position : ℕ}
    {front back : List SearchEntry} {e : SearchEntry}
    (he : entriesOf bytes height ts position = front ++ e :: back) :
    ∃ pre post, ts = pre ++ e.transaction :: post ∧
      e = ⟨bytes, height, e.transaction, position + pre.length⟩ ∧
      front = entriesOf bytes height pre position := by
  induction ts generalizing front position with
  | nil => simp [entriesOf] at he
  | cons t ts ih =>
      have hcons : entriesOf bytes height (t :: ts) position =
          ⟨bytes, height, t, position⟩ :: entriesOf bytes height ts (position + 1) := rfl
      rw [hcons] at he
      cases front with
      | nil =>
          obtain ⟨rfl, -⟩ := List.cons_eq_cons.mp he
          exact ⟨[], ts, rfl, rfl, rfl⟩
      | cons e' front =>
          obtain ⟨rfl, htail⟩ := List.cons_eq_cons.mp he
          obtain ⟨pre, post, rfl, hentry, rfl⟩ := ih htail
          refine ⟨t :: pre, post, rfl, ?_, rfl⟩
          rw [List.length_cons, Nat.add_comm pre.length, ← Nat.add_assoc]
          exact hentry

/-- An entry of a history is a transaction of one of its blocks. -/
theorem historyEntries_split {blocks : List Bytes}
    (h : ∀ bytes ∈ blocks, ∃ b, blockDecode bytes = .ok b) {front back : List SearchEntry}
    {e : SearchEntry} (he : historyEntries blocks = front ++ e :: back) :
    ∃ past bytes rest b pre post, blocks = past ++ bytes :: rest ∧ blockDecode bytes = .ok b ∧
      b.transactions = pre ++ e.transaction :: post ∧
      e = ⟨bytes, b.header.height, e.transaction, pre.length⟩ ∧
      front = historyEntries past ++ entriesOf bytes b.header.height pre 0 := by
  induction blocks generalizing front with
  | nil => simp [historyEntries] at he
  | cons bytes rest ih =>
      obtain ⟨⟨b, hdecode⟩, hrest⟩ := List.forall_mem_cons.mp h
      have hcons : historyEntries (bytes :: rest) =
          entriesOf bytes b.header.height b.transactions 0 ++ historyEntries rest := by
        rw [historyEntries, List.flatMap_cons, blockEntries_of_decode hdecode]
        rfl
      -- The entry stands in a later block, or is one of the first block's.
      have hlater {front : List SearchEntry} (he : historyEntries rest = front ++ e :: back) :
          ∃ past bytes' rest' b' pre post, bytes :: rest = past ++ bytes' :: rest' ∧
            blockDecode bytes' = .ok b' ∧ b'.transactions = pre ++ e.transaction :: post ∧
            e = ⟨bytes', b'.header.height, e.transaction, pre.length⟩ ∧
            entriesOf bytes b.header.height b.transactions 0 ++ front =
              historyEntries past ++ entriesOf bytes' b'.header.height pre 0 := by
        obtain ⟨past, bytes', rest', b', pre, post, rfl, hdecode', hsplit, hentry, rfl⟩ :=
          ih hrest he
        refine ⟨bytes :: past, bytes', rest', b', pre, post, rfl, hdecode', hsplit, hentry, ?_⟩
        rw [historyEntries, historyEntries, List.flatMap_cons, blockEntries_of_decode hdecode,
          List.append_assoc]
      rw [hcons] at he
      rcases List.append_eq_append_iff.mp he with ⟨front', rfl, hback⟩ | ⟨back', hfirst, hback⟩
      · exact hlater hback
      · cases back' with
        | nil =>
            rw [List.append_nil] at hfirst
            obtain rfl := hfirst
            have hfound := hlater (hback.symm.trans (List.nil_append _).symm)
            rwa [List.append_nil] at hfound
        | cons e' back' =>
            obtain ⟨rfl, -⟩ := List.cons_eq_cons.mp hback
            obtain ⟨pre, post, hsplit, hentry, rfl⟩ := entriesOf_split hfirst
            rw [Nat.zero_add] at hentry
            exact ⟨[], bytes, rest, b, pre, post, rfl, hdecode, hsplit, hentry, rfl⟩

/-! ## The records of a history -/

/-- What a query has seen at an entry: the match and the cursor of a publication. -/
structure SeenAt (c : ChainContext) (w : SearchState) (e : SearchEntry) (tx : Transaction)
    (r : RecordMatch × ChainCursor) : Prop where
  decode : transactionDecode e.transaction = .ok tx
  type : tx.type = .publication
  check : lifecycleCheckPublication { w.historical with replay := w.eligible } tx.record
    c.hashProvider = .ok
  recordId : recordId tx.record c.hashProvider = .ok r.1.recordId
  blockId : chainBlockId e.bytes c.hashProvider = .ok r.2.blockId
  found : r.1 = ⟨r.1.recordId, e.height, r.2.blockId, e.transaction⟩
  cursor : r.2 = ⟨chainCursorVersion, e.height, r.2.blockId, UInt32.ofNat e.position⟩

theorem seen_eq_some_iff {c : ChainContext} {w : SearchState} {e : SearchEntry}
    {r : RecordMatch × ChainCursor} : w.seen c e = some r ↔ ∃ tx, SeenAt c w e tx r := by
  constructor
  · intro h
    simp only [SearchState.seen] at h
    split at h
    · cases h
    next tx hdecode =>
    split at h
    · next heligible =>
        split at h
        · next id blockId hid hblockId =>
            obtain rfl := Option.some.inj h
            exact ⟨tx, hdecode, heligible.1, heligible.2, hid, hblockId, rfl, rfl⟩
        · cases h
    · cases h
  · rintro ⟨tx, h⟩
    simp only [SearchState.seen, h.decode, if_pos (And.intro h.type h.check), h.recordId, h.blockId]
    exact congrArg some (Prod.ext h.found.symm h.cursor.symm)

/-- A cursor stands at an entry. -/
structure SearchEntry.At (e : SearchEntry) (cursor : ChainCursor) : Prop where
  height : cursor.height = e.height
  position : cursor.transactionPosition.toNat = e.position

omit [Primitives] in
theorem SearchEntry.Before.cursors {e e' : SearchEntry} (h : e.Before e') {p q : ChainCursor}
    (hp : e.At p) (hq : e'.At q) : p.Before q := by
  rcases h with hlow | ⟨heq, hlow⟩
  · exact .inl (hp.height ▸ hq.height ▸ hlow)
  · refine .inr ⟨hp.height.trans (heq.trans hq.height.symm), UInt32.lt_iff_toNat_lt.mpr ?_⟩
    rw [hp.position, hq.position]
    exact hlow

theorem SeenAt.at {c : ChainContext} {w : SearchState} {e : SearchEntry} (he : e.Sound c)
    {tx : Transaction} {r : RecordMatch × ChainCursor} (h : SeenAt c w e tx r) : e.At r.2 := by
  have hposition := he.position
  rw [h.cursor]
  refine ⟨rfl, ?_⟩
  simp only [UInt32.toNat_ofNat']
  omega

/-- The cursor of a record seen at an entry is the cursor of the entry. -/
theorem SeenAt.cursor_eq {c : ChainContext} {w : SearchState} {e : SearchEntry}
    {tx : Transaction} {r : RecordMatch × ChainCursor} (h : SeenAt c w e tx r)
    {past : List Bytes} {b : Block} {pre : List Bytes} {cursor : ChainCursor}
    (hcursor : CursorAt c past e.bytes b pre cursor) (hat : e.At cursor) : r.2 = cursor := by
  have hid := Except.ok.inj (h.blockId.symm.trans hcursor.blockId)
  have hindex : UInt32.ofNat e.position = cursor.transactionPosition := by
    rw [← hat.position, UInt32.ofNat_toNat]
  rw [h.cursor, hid, hindex, ← hat.height, ← hcursor.version]

omit [Primitives] in
/-- The search after a cursor selects the records after it. -/
theorem selectsRecord_after (cursor : ChainCursor) :
    SearchKey.selectsRecord { after := some cursor } = fun r => decide (cursor.Before r.2) := by
  funext r
  simp [SearchKey.selectsRecord, SearchKey.selects, ChainCursor.Before, eq_comm,
    UInt32.lt_iff_toNat_lt]

/-- Where every query answers, every entry can be passed over. -/
theorem QueriesAnswer.passes {c : ChainContext} {blocks : List Bytes} {s : ChainState}
    (hanswer : QueriesAnswer c blocks) (h : Accepts c blocks s) :
    ∃ w, (historyEntries blocks).foldlM
      (searchEntry c s.publicationActivationHeight endKey) (searchStart c blocks) = .ok w := by
  obtain ⟨-, hreach⟩ := accepts_iff.mp h
  obtain ⟨hpolicy, hlifecycle⟩ := hanswer.lifecycle hreach
  have hsound := hreach.entries_sound
  rcases List.eq_nil_or_concat' (historyEntries blocks) with hnil | ⟨front, e, hlast⟩
  · exact ⟨searchStart c blocks, by rw [hnil]; rfl⟩
  -- The query for the record after the last entry passes over all of them.
  obtain ⟨past, bytes, rest, b, pre, post, rfl, hdecode, hsplit, hentry, -⟩ :=
    historyEntries_split (fun bytes hbytes => hreach.decode_of_mem hbytes) hlast
  obtain ⟨cursor, hcursor⟩ := hreach.cursorAt hdecode hsplit
  have hnext := hanswer.next cursor
  have hvalid := hcursor.validate (List.mem_append_right past List.mem_cons_self) hanswer
  have hat : e.At cursor := by
    rw [hentry]
    exact ⟨hcursor.height.symm, hcursor.position⟩
  have hcursorAt : CursorAt c past e.bytes b pre cursor := by
    rw [hentry]
    exact hcursor
  have hpairwise := hreach.entries_pairwise
  rw [hlast] at hpairwise
  obtain ⟨-, -, hbefore⟩ := List.pairwise_append.mp hpairwise
  have hpass : ∀ e' ∈ historyEntries (past ++ bytes :: rest), ∀ w,
      searchEntry c s.publicationActivationHeight { after := some cursor } w e' =
        searchEntry c s.publicationActivationHeight endKey w e' := by
    intro e' he' w
    rw [searchEntry_eq (hsound e' he')]
    cases hseen : w.seen c e' with
    | none => rfl
    | some r =>
        obtain ⟨tx, hr⟩ := seen_eq_some_iff.mp hseen
        have hnot : ¬ cursor.Before r.2 := by
          rw [hlast] at he'
          rcases List.mem_append.mp he' with hfront | hlast'
          · exact ((hbefore e' hfront e List.mem_cons_self).cursors
              (hr.at (hsound e' (hlast ▸ he'))) hat).asymm
          · obtain rfl := List.mem_singleton.mp hlast'
            rw [hr.cursor_eq hcursorAt hat]
            exact ChainCursor.Before.irrefl cursor
        simp only [Option.filter, selectsRecord_after, hnot, decide_false, Bool.false_eq_true,
          ↓reduceIte, leaveOr]
  have hsearch := recordSearch_eq_walk h hpolicy hlifecycle { after := some cursor }
  rw [foldlM_searchBlock (fun other hother => hreach.decode_of_mem hother), foldlM_congr hpass]
    at hsearch
  have hunselected : Ends SearchExit.IsFailed (fun _ => True)
      ((historyEntries (past ++ bytes :: rest)).foldlM
        (searchEntry c s.publicationActivationHeight endKey)
        (searchStart c (past ++ bytes :: rest))) := by
    refine Ends.foldlM (I := fun _ _ => True) trivial fun front' e' back w hes _ => ?_
    exact searchTransaction_unselected (endKey_selects (hsound e' (by rw [hes]; simp))) w
  rw [searchStart] at hunselected ⊢
  cases hresult : (historyEntries (past ++ bytes :: rest)).foldlM
      (searchEntry c s.publicationActivationHeight endKey)
      (searchInitial c (historyTransactions (past ++ bytes :: rest)).length
        (grantsOf (historyTransactions (past ++ bytes :: rest))).length) with
  | ok w => exact ⟨w, rfl⟩
  | error exit =>
      rw [hresult] at hsearch hunselected
      cases exit with
      | found found position => exact hunselected.elim
      | failed status =>
          simp only [chainNextRecord, hvalid, hsearch, searchReport] at hnext
          cases status <;> simp [NextResult.answers] at hnext

/-- The records of a history: what a walk sees that returns none of them. -/
def historyRecords (c : ChainContext) (activation : UInt64) (blocks : List Bytes) :
    List (RecordMatch × ChainCursor) :=
  log (searchEntry c activation endKey) (SearchState.seen c) (searchStart c blocks)
    (historyEntries blocks)

/-- A search finds the first record it selects. -/
theorem recordSearch_eq_find {c : ChainContext} {blocks : List Bytes} {s : ChainState}
    (h : Accepts c blocks s) (hanswer : QueriesAnswer c blocks) (k : SearchKey) :
    recordSearch c blocks k =
      .ok ((historyRecords c s.publicationActivationHeight blocks).find? k.selectsRecord) := by
  obtain ⟨-, hreach⟩ := accepts_iff.mp h
  obtain ⟨hpolicy, hlifecycle⟩ := hanswer.lifecycle hreach
  obtain ⟨w, hw⟩ := hanswer.passes h
  have hselect := foldlM_select (fun r : RecordMatch × ChainCursor => SearchExit.found r.1 r.2)
    (fun e he w => searchEntry_eq (hreach.entries_sound e he) _ k w) hw
  rw [recordSearch_eq_walk h hpolicy hlifecycle,
    foldlM_searchBlock fun bytes hbytes => hreach.decode_of_mem hbytes]
  rw [searchStart] at hselect
  rw [hselect, historyRecords, searchStart]
  cases (log (searchEntry c s.publicationActivationHeight endKey) (SearchState.seen c)
    (searchInitial c (historyTransactions blocks).length
      (grantsOf (historyTransactions blocks)).length) (historyEntries blocks)).find?
        k.selectsRecord with
  | none => rfl
  | some r => rfl

/-- The records of an accepted history ascend. -/
theorem Reaches.records_pairwise {c : ChainContext} {blocks : List Bytes} {s : ChainState}
    (h : Reaches c blocks s) (activation : UInt64) :
    (historyRecords c activation blocks).Pairwise fun r r' => r.2.Before r'.2 := by
  refine log_pairwise (fun e he e' he' hbefore w w' r r' hr hr' => ?_) h.entries_pairwise
  obtain ⟨tx, hseen⟩ := seen_eq_some_iff.mp hr
  obtain ⟨tx', hseen'⟩ := seen_eq_some_iff.mp hr'
  exact hbefore.cursors (hseen.at (h.entries_sound e he)) (hseen'.at (h.entries_sound e' he'))

/-! ## Visiting the records -/

/-- `Enumerates c blocks result records`: a caller holding `result` who asks for the next
record at each cursor it is given visits `records` and comes to the end. -/
inductive Enumerates (c : ChainContext) (blocks : List Bytes) :
    NextResult → List (RecordMatch × ChainCursor) → Prop
  | atEnd : Enumerates c blocks .atEnd []
  | record {found : RecordMatch} {position : ChainCursor}
      {records : List (RecordMatch × ChainCursor)} :
      Enumerates c blocks (chainNextRecord c blocks position) records →
      Enumerates c blocks (.record found position) ((found, position) :: records)

/-- The first result, as the result of a later call. -/
def FirstResult.toNext : FirstResult → NextResult
  | .record found position => .record found position
  | .atEnd => .atEnd
  | .unavailable => .unavailable
  | .provider => .provider
  | .capacity => .capacity

/-- What a query answers that finds the first of `records`. -/
def nextOf : List (RecordMatch × ChainCursor) → NextResult
  | [] => .atEnd
  | r :: _ => .record r.1 r.2

/-- The first query answers the first record. -/
theorem chainFirstRecord_eq {c : ChainContext} {blocks : List Bytes} {s : ChainState}
    (h : Accepts c blocks s) (hanswer : QueriesAnswer c blocks) :
    (chainFirstRecord c blocks).toNext =
      nextOf (historyRecords c s.publicationActivationHeight blocks) := by
  have hall : SearchKey.selectsRecord {} = fun _ => true := by
    funext r
    rfl
  rw [chainFirstRecord, recordSearch_eq_find h hanswer, hall]
  cases historyRecords c s.publicationActivationHeight blocks with
  | nil => rfl
  | cons r rest => rfl

/-- After a record the next query answers the record that follows. -/
theorem chainNextRecord_eq {c : ChainContext} {blocks : List Bytes} {s : ChainState}
    (h : Accepts c blocks s) (hanswer : QueriesAnswer c blocks)
    {pre rest : List (RecordMatch × ChainCursor)} {r : RecordMatch × ChainCursor}
    (hrecords : historyRecords c s.publicationActivationHeight blocks = pre ++ r :: rest) :
    chainNextRecord c blocks r.2 = nextOf rest := by
  obtain ⟨-, hreach⟩ := accepts_iff.mp h
  have hmem : r ∈ historyRecords c s.publicationActivationHeight blocks := by simp [hrecords]
  obtain ⟨front, e, back, w, hentries, -, hseen⟩ := mem_log hmem
  obtain ⟨tx, hr⟩ := seen_eq_some_iff.mp hseen
  obtain ⟨past, bytes, rest', b, pre', post, rfl, hdecode, hsplit, hentry, -⟩ :=
    historyEntries_split (fun bytes hbytes => hreach.decode_of_mem hbytes) hentries
  obtain ⟨cursor, hcursor⟩ := hreach.cursorAt hdecode hsplit
  have hat : e.At cursor := by
    rw [hentry]
    exact ⟨hcursor.height.symm, hcursor.position⟩
  have hcursorAt : CursorAt c past e.bytes b pre' cursor := by
    rw [hentry]
    exact hcursor
  have hvalid := hcursor.validate (List.mem_append_right past List.mem_cons_self) hanswer
  rw [← hr.cursor_eq hcursorAt hat] at hvalid
  have hpairwise := hreach.records_pairwise s.publicationActivationHeight
  rw [hrecords] at hpairwise
  have hfind := find?_after (fun r r' : RecordMatch × ChainCursor => r.2.Before r'.2)
    (ChainCursor.Before.irrefl r.2) (fun _ hx => ChainCursor.Before.asymm hx) hpairwise
  have hsearch := recordSearch_eq_find h hanswer { after := some r.2 }
  rw [hrecords, selectsRecord_after, hfind] at hsearch
  simp only [chainNextRecord, hvalid, hsearch]
  cases rest with
  | nil => rfl
  | cons r' rest => rfl

/-- The caller visits the records from the one it holds on. -/
theorem enumerates_from {c : ChainContext} {blocks : List Bytes} {s : ChainState}
    (h : Accepts c blocks s) (hanswer : QueriesAnswer c blocks)
    (pre rest : List (RecordMatch × ChainCursor))
    (hrecords : historyRecords c s.publicationActivationHeight blocks = pre ++ rest) :
    Enumerates c blocks (nextOf rest) rest := by
  induction rest generalizing pre with
  | nil => exact .atEnd
  | cons r rest ih =>
      apply Enumerates.record
      rw [chainNextRecord_eq h hanswer hrecords]
      exact ih (pre ++ [r]) (by rw [hrecords, List.append_assoc]; rfl)

/-! ## Eligible publications -/

/-- `r` is the match and the cursor of the publication `tx` of a history, and `lifecycle`
is what the accepted blocks have made of the lifecycle before it. -/
structure PublicationAt (c : ChainContext) (blocks : List Bytes) (tx : Transaction)
    (lifecycle : LifecycleState) (r : RecordMatch × ChainCursor) : Prop where
  position : ∃ past bytes rest b pre post before after, blocks = past ++ bytes :: rest ∧
    b.transactions = pre ++ r.1.transaction :: post ∧ CursorAt c past bytes b pre r.2 ∧
    RoundAt c past bytes pre tx before after ∧ lifecycle = before.lifecycle
  decode : transactionDecode r.1.transaction = .ok tx
  type : tx.type = .publication
  recordId : recordId tx.record c.hashProvider = .ok r.1.recordId
  height : r.1.height = r.2.height
  blockId : r.1.blockId = r.2.blockId

/-- The replay identifiers a query has seen before a cursor: those accepted and those of
the records before it. -/
def seenReplay (lifecycle : LifecycleState) (records : List (RecordMatch × ChainCursor))
    (cursor : ChainCursor) : ReplayState :=
  let ids := lifecycle.replay.consumed ++
    replayIds (records.filter fun r => decide (r.2.Before cursor))
  ⟨ids, ids.length⟩

/-- A publication passes its check against the accepted lifecycle before it and the replay
identifiers seen. -/
def Eligible (c : ChainContext) (records : List (RecordMatch × ChainCursor)) (tx : Transaction)
    (lifecycle : LifecycleState) (cursor : ChainCursor) : Prop :=
  lifecycleCheckPublication { lifecycle with replay := seenReplay lifecycle records cursor }
    tx.record c.hashProvider = .ok

/-- The check of a publication depends on the grants, the revoked identifiers, the
rotations and the replay identifiers consumed. -/
theorem lifecycleCheckPublication_congr {s s' : LifecycleState} (hgrants : s'.grants = s.grants)
    (hauthority : s'.authority = s.authority)
    (hrotations : s'.rotation.rotations = s.rotation.rotations)
    (hreplay : ∀ id, replayStateCheck s'.replay id = replayStateCheck s.replay id)
    (bytes : Bytes) (provider : HashProvider) :
    lifecycleCheckPublication s' bytes provider = lifecycleCheckPublication s bytes provider := by
  have hscan (signer action context : Octets 32) (authorized : Bool) (grants : List Bytes) :
      publicationAuthorized s' signer action context provider authorized grants =
        publicationAuthorized s signer action context provider authorized grants := by
    induction grants generalizing authorized with
    | nil => rfl
    | cons grant rest ih => simp only [publicationAuthorized, hauthority, ih]
  simp only [lifecycleCheckPublication, hgrants, hrotations, hreplay, hscan]

theorem length_historyEntries {blocks : List Bytes}
    (h : ∀ bytes ∈ blocks, ∃ b, blockDecode bytes = .ok b) :
    (historyEntries blocks).length = (historyTransactions blocks).length := by
  induction blocks with
  | nil => rfl
  | cons bytes rest ih =>
      obtain ⟨⟨b, hdecode⟩, hrest⟩ := List.forall_mem_cons.mp h
      have hlength := length_decodedTransactions (Block.decode_transactions hdecode)
      rw [historyEntries, List.flatMap_cons, blockEntries_of_decode hdecode, List.length_append,
        historyTransactions_cons, historyTransactions_singleton hdecode,
        List.length_append, hlength]
      rw [entriesOf, List.length_map, List.length_zipIdx]
      exact congrArg _ (ih hrest)

/-- The entries of a history around one of its transactions. -/
theorem historyEntries_at (past rest : List Bytes) {bytes : Bytes} {b : Block}
    (hdecode : blockDecode bytes = .ok b) {pre post : List Bytes} {t : Bytes}
    (hsplit : b.transactions = pre ++ t :: post) :
    ∃ back, historyEntries (past ++ bytes :: rest) =
      (historyEntries past ++ entriesOf bytes b.header.height pre 0) ++
        ⟨bytes, b.header.height, t, pre.length⟩ :: back := by
  refine ⟨entriesOf bytes b.header.height post (pre.length + 1) ++ historyEntries rest, ?_⟩
  simp only [historyEntries, List.flatMap_append, List.flatMap_cons,
    blockEntries_of_decode hdecode, hsplit, entriesOf, List.zipIdx_append, List.zipIdx_cons,
    List.map_append, List.map_cons, Nat.zero_add, List.append_assoc, List.cons_append]

/-- The walk at an entry: what it has seen before, sees there, and sees after. -/
theorem historyRecords_split {c : ChainContext} {blocks : List Bytes} {s : ChainState}
    (h : Accepts c blocks s) (hanswer : QueriesAnswer c blocks) {front back : List SearchEntry}
    {e : SearchEntry} (hentries : historyEntries blocks = front ++ e :: back)
    {cursor : ChainCursor} (hat : e.At cursor) :
    ∃ w before after, front.foldlM (searchEntry c s.publicationActivationHeight endKey)
        (searchStart c blocks) = .ok w ∧
      historyRecords c s.publicationActivationHeight blocks =
        before ++ ((w.seen c e).toList ++ after) ∧
      (∀ r ∈ before, r.2.Before cursor) ∧ (∀ r ∈ after, cursor.Before r.2) ∧
      w.Holds (back.length + 1) before := by
  obtain ⟨-, hreach⟩ := accepts_iff.mp h
  have hsound := hreach.entries_sound
  have hpairwise := hreach.entries_pairwise
  rw [hentries] at hsound hpairwise
  obtain ⟨-, hback, hfront⟩ := List.pairwise_append.mp hpairwise
  obtain ⟨hback, -⟩ := List.pairwise_cons.mp hback
  have hseenAt {e' : SearchEntry} (he' : e' ∈ front ++ e :: back) {w : SearchState}
      {r : RecordMatch × ChainCursor} (hseen : w.seen c e' = some r) : e'.At r.2 := by
    obtain ⟨tx, hr⟩ := seen_eq_some_iff.mp hseen
    exact hr.at (hsound e' he')
  obtain ⟨wEnd, hwalk⟩ := hanswer.passes h
  rw [hentries] at hwalk
  obtain ⟨w, hw, hrest⟩ := foldlM_append_eq_ok.mp hwalk
  obtain ⟨w', hw', -⟩ := foldlM_cons_eq_ok.mp hrest
  let walked := log (searchEntry c s.publicationActivationHeight endKey) (SearchState.seen c)
  refine ⟨w, walked (searchStart c blocks) front, walked w' back, hw, ?_, ?_, ?_, ?_⟩
  · rw [historyRecords, hentries, log_append hw, log_cons hw']
  · intro r hr
    obtain ⟨pre, e', post, u, rfl, -, hseen⟩ := mem_log hr
    have he' : e' ∈ pre ++ e' :: post := List.mem_append_right _ List.mem_cons_self
    exact (hfront e' he' e List.mem_cons_self).cursors
      (hseenAt (List.mem_append_left _ he') hseen) hat
  · intro r hr
    obtain ⟨pre, e', post, u, rfl, -, hseen⟩ := mem_log hr
    have he' : e' ∈ pre ++ e' :: post := List.mem_append_right _ List.mem_cons_self
    exact (hback e' he').cursors hat
      (hseenAt (List.mem_append_right _ (List.mem_cons_of_mem _ he')) hseen)
  · have hlength := length_historyEntries fun bytes hbytes => hreach.decode_of_mem hbytes
    rw [hentries, List.length_append, List.length_cons] at hlength
    have hstart : (searchStart c blocks).Holds (front.length + (back.length + 1)) [] := by
      have hinitial : (searchStart c blocks).historical.replay.consumed = [] := by
        simp only [searchStart, searchInitial, lifecycleSetInitialIdentities]
        split <;> rfl
      constructor
      · exact (Nat.zero_add _).trans_le hlength.le
      · intro id
        rw [hinitial]
        exact or_self_iff.symm
    have hholds := foldlM_log (I := SearchState.Holds) (fun e' he' n u u' past hu hpass =>
      searchEntry_holds (hsound e' (List.mem_append_left _ he')) hu hpass) hstart hw
    rwa [List.nil_append] at hholds

omit [Primitives] in
/-- The records before a cursor are those the walk has seen before its entry. -/
theorem filter_before {before after : List (RecordMatch × ChainCursor)}
    {cursor : ChainCursor} {seen : Option (RecordMatch × ChainCursor)}
    (hbefore : ∀ r ∈ before, r.2.Before cursor) (hafter : ∀ r ∈ after, cursor.Before r.2)
    (hseen : ∀ r, seen = some r → r.2 = cursor) :
    (before ++ (seen.toList ++ after)).filter (fun r => decide (r.2.Before cursor)) = before := by
  have hkept : before.filter (fun r => decide (r.2.Before cursor)) = before :=
    List.filter_eq_self.mpr fun r hr => decide_eq_true (hbefore r hr)
  have hdropped : (seen.toList ++ after).filter (fun r => decide (r.2.Before cursor)) = [] := by
    rw [List.filter_eq_nil_iff]
    intro r hr
    rcases List.mem_append.mp hr with hr | hr
    · rw [hseen r (Option.mem_toList.mp hr), decide_eq_true_eq]
      exact ChainCursor.Before.irrefl cursor
    · rw [decide_eq_true_eq]
      exact (hafter r hr).asymm
  rw [List.filter_append, hkept, hdropped, List.append_nil]

/-- The walk sees exactly the eligible publications. -/
theorem mem_historyRecords_iff {c : ChainContext} {blocks : List Bytes} {s : ChainState}
    (h : Accepts c blocks s) (hanswer : QueriesAnswer c blocks) {tx : Transaction}
    {lifecycle : LifecycleState} {r : RecordMatch × ChainCursor}
    (hr : PublicationAt c blocks tx lifecycle r) :
    r ∈ historyRecords c s.publicationActivationHeight blocks ↔
      Eligible c (historyRecords c s.publicationActivationHeight blocks) tx lifecycle r.2 := by
  obtain ⟨past, bytes, rest, b, pre, post, before, after, rfl, hsplit, hcursor, hround, rfl⟩ :=
    hr.position
  obtain ⟨-, hreach⟩ := accepts_iff.mp h
  obtain ⟨-, hlifecycle⟩ := hanswer.lifecycle hreach
  obtain ⟨back, hentries⟩ := historyEntries_at past rest hcursor.decode hsplit
  have hat : (SearchEntry.mk bytes b.header.height r.1.transaction pre.length).At r.2 :=
    ⟨hcursor.height.symm, hcursor.position⟩
  obtain ⟨w, recordsBefore, recordsAfter, hw, hrecords, hbefore, hafter, hholds⟩ :=
    historyRecords_split h hanswer hentries hat
  have hseen (x : RecordMatch × ChainCursor)
      (hx : w.seen c ⟨bytes, b.header.height, r.1.transaction, pre.length⟩ = some x) :
      x.2 = r.2 := by
    obtain ⟨tx', hx⟩ := seen_eq_some_iff.mp hx
    exact hx.cursor_eq hcursor hat
  -- The walk checks the publication against what the accepted blocks and the query know.
  obtain ⟨grants, replays, hhistorical⟩ :=
    hround.search_follows hcursor.decode hsplit hlifecycle hreach.activation hw
  have hcheck : lifecycleCheckPublication { w.historical with replay := w.eligible } tx.record
      c.hashProvider = lifecycleCheckPublication { before.lifecycle with
        replay := seenReplay before.lifecycle
          (historyRecords c s.publicationActivationHeight (past ++ bytes :: rest)) r.2 }
        tx.record c.hashProvider := by
    apply lifecycleCheckPublication_congr
    · rw [hhistorical]
      rfl
    · rw [hhistorical]
      rfl
    · rw [hhistorical]
      rfl
    · intro id
      have hroom := hholds.room
      have hmem := hholds.mem_iff id
      rw [hhistorical] at hmem
      rw [hrecords, seenReplay, filter_before hbefore hafter hseen,
        replayStateCheck_of_le (by dsimp only; omega), replayStateCheck_of_le le_rfl]
      exact if_congr (hmem.trans List.mem_append.symm) rfl rfl
  rw [Eligible, ← hcheck]
  constructor
  · intro hmem
    rw [hrecords] at hmem
    rcases List.mem_append.mp hmem with hin | hin
    · exact absurd (hbefore r hin) (ChainCursor.Before.irrefl r.2)
    rcases List.mem_append.mp hin with hin | hin
    · obtain ⟨tx', hx⟩ := seen_eq_some_iff.mp (Option.mem_toList.mp hin)
      obtain rfl := Except.ok.inj (hr.decode.symm.trans hx.decode)
      exact hx.check
    · exact absurd (hafter r hin) (ChainCursor.Before.irrefl r.2)
  · intro hok
    have hx : SeenAt c w ⟨bytes, b.header.height, r.1.transaction, pre.length⟩ tx r := by
      refine ⟨hr.decode, hr.type, hok, hr.recordId, hcursor.blockId, ?_, ?_⟩
      · rw [hcursor.height, ← hr.height, ← hr.blockId]
      · rw [hcursor.height, ← hcursor.version, ← hcursor.position, UInt32.ofNat_toNat]
    rw [hrecords, seen_eq_some_iff.mpr ⟨tx, hx⟩]
    simp

/-- Every record is a publication of the history. -/
theorem publicationAt_of_mem {c : ChainContext} {blocks : List Bytes} {s : ChainState}
    (h : Reaches c blocks s) {activation : UInt64} {r : RecordMatch × ChainCursor}
    (hr : r ∈ historyRecords c activation blocks) :
    ∃ tx lifecycle, PublicationAt c blocks tx lifecycle r := by
  obtain ⟨front, e, back, w, hentries, -, hseen⟩ := mem_log hr
  obtain ⟨tx, hx⟩ := seen_eq_some_iff.mp hseen
  obtain ⟨past, bytes, rest, b, pre, post, rfl, hdecode, hsplit, hentry, -⟩ :=
    historyEntries_split (fun bytes hbytes => h.decode_of_mem hbytes) hentries
  obtain ⟨cursor, hcursor⟩ := h.cursorAt hdecode hsplit
  have hat : e.At cursor := by
    rw [hentry]
    exact ⟨hcursor.height.symm, hcursor.position⟩
  have hcursorAt : CursorAt c past e.bytes b pre cursor := by
    rw [hentry]
    exact hcursor
  obtain rfl := hx.cursor_eq hcursorAt hat
  have htransaction : r.1.transaction = e.transaction := by rw [hx.found]
  obtain ⟨before, after, hround⟩ := h.roundAt ((blockTransactions_of_decode hdecode).trans hsplit)
    hx.decode (by simp [hx.type]) (by simp [Transaction.issuance, hx.type])
  refine ⟨tx, before.lifecycle, ⟨past, bytes, rest, b, pre, post, before, after, rfl,
    htransaction ▸ hsplit, hcursor, hround, rfl⟩, htransaction ▸ hx.decode, hx.type, hx.recordId,
    ?_, ?_⟩
  · rw [hx.found, hx.cursor]
  · rw [hx.found]

/-- Every publication of an accepted history with an identifier has its match, its cursor
and the lifecycle before it. -/
theorem Reaches.publicationAt {c : ChainContext} {blocks : List Bytes} {s : ChainState}
    (h : Reaches c blocks s) {tx : Transaction} (htx : tx ∈ historyTransactions blocks)
    (htype : tx.type = .publication) {id : Octets 32}
    (hid : recordId tx.record c.hashProvider = .ok id) :
    ∃ lifecycle r, PublicationAt c blocks tx lifecycle r := by
  obtain ⟨bytes, hbytes, hin⟩ := List.mem_flatMap.mp htx
  obtain ⟨t, ht, hdecode⟩ := mem_decodedTransactions.mp hin
  obtain ⟨past, rest, rfl⟩ := List.append_of_mem hbytes
  obtain ⟨b, hblock⟩ := h.decode_of_mem hbytes
  obtain ⟨pre, post, hsplit⟩ := List.append_of_mem ht
  obtain ⟨before, after, hround⟩ := h.roundAt hsplit hdecode (by simp [htype])
    (by simp [Transaction.issuance, htype])
  rw [blockTransactions_of_decode hblock] at hsplit
  obtain ⟨cursor, hcursor⟩ := h.cursorAt hblock hsplit
  exact ⟨before.lifecycle, (⟨id, cursor.height, cursor.blockId, t⟩, cursor),
    ⟨past, bytes, rest, b, pre, post, before, after, rfl, hsplit, hcursor, hround, rfl⟩, hdecode,
    htype, hid, rfl, rfl⟩

/-- On an accepted history on which the queries answer, a caller visits the eligible
publications in their order, each once, and comes to the end; a lookup answers the first
of them with its identifier. -/
theorem enumeration_exact {c : ChainContext} {blocks : List Bytes} {s : ChainState}
    (h : Accepts c blocks s) (hanswer : QueriesAnswer c blocks) :
    ∃ records, Enumerates c blocks (chainFirstRecord c blocks).toNext records ∧
      records.Pairwise (fun r r' => r.2.Before r'.2) ∧
      (∀ r ∈ records, ∃ tx lifecycle, PublicationAt c blocks tx lifecycle r) ∧
      (∀ tx lifecycle r, PublicationAt c blocks tx lifecycle r →
        (r ∈ records ↔ Eligible c records tx lifecycle r.2)) ∧
      ∀ key, chainLookupRecord c blocks key =
        .ok ((records.find? fun r => r.1.recordId = key).map Prod.fst) := by
  obtain ⟨-, hreach⟩ := accepts_iff.mp h
  refine ⟨historyRecords c s.publicationActivationHeight blocks, ?_,
    hreach.records_pairwise _, ?_, fun tx lifecycle r hr => mem_historyRecords_iff h hanswer hr,
    fun key => ?_⟩
  · rw [chainFirstRecord_eq h hanswer]
    exact enumerates_from h hanswer [] _ rfl
  · exact fun r hr => publicationAt_of_mem hreach hr
  · have hselects : SearchKey.selectsRecord { key := some key } =
        fun r => decide (r.1.recordId = key) := by
      funext r
      simp [SearchKey.selectsRecord, SearchKey.selects, eq_comm]
    rw [chainLookupRecord, recordSearch_eq_find h hanswer, hselects]
    cases (historyRecords c s.publicationActivationHeight blocks).find?
      fun r => decide (r.1.recordId = key) with
    | none => rfl
    | some r => rfl

end

section Sample

attribute [local instance] Sample.granting

open Sample

theorem sample_enumeration : ∃ records,
    Enumerates grantingContext [grantingGenesis, revoking, afterwards]
      (chainFirstRecord grantingContext [grantingGenesis, revoking, afterwards]).toNext
        records := by
  obtain ⟨s, hs⟩ := accepts_revoking
  have htotal : grantingContext.hashProvider.Total := ⟨_, rfl, fun _ _ => ⟨_, rfl⟩⟩
  have hlifecycle : ∀ tx ∈ historyTransactions [grantingGenesis, revoking, afterwards],
      tx.type.isLifecycle = true := by
    decide +kernel
  have hanswer := (queriesAnswer_iff htotal hs).mpr ⟨rfl, hlifecycle⟩
  obtain ⟨records, hvisits, -⟩ := enumeration_exact hs hanswer
  exact ⟨records, hvisits⟩

end Sample

end StnChain
