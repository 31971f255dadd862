import StnChain.Lifecycle
import StnChain.Support.SortedTable

/-!
# The pending pool

Transactions that wait for a block (`stn_pending.c`).  An entry keeps the octets of
its transaction under the transaction identifier, with the signer and nonce the
transaction is recognized by; a pool keeps its entries ascending by identifier
within fixed bounds.  A pool carries these facts, relative to the provider its
identifiers come from.
-/

namespace StnChain

variable [Primitives]

/-- `stn_pending_result`. -/
inductive PendingResult
  | accepted | duplicate | replay | invalid | unavailable | capacity | provider | signature
  | authority | time | network | unsupported | notFound
  deriving DecidableEq, Repr

/-- `STN_PENDING_MAX_ENTRIES`. -/
def pendingMaxEntries : ℕ := 128

/-- `STN_PENDING_MAX_BYTES`. -/
def pendingMaxBytes : ℕ := 256 * 1024

/-- `stn_pending_entry`. -/
structure PendingEntry where
  id : Octets 32
  signer : Octets 32
  nonce : Octets 32
  transaction : Bytes
  deriving DecidableEq

/-- The order of a pool, that of the octets of the identifiers. -/
def PendingEntry.key (e : PendingEntry) : ℕ := e.id.toNat

/-! ## The signer and nonce of a transaction -/

/-- The nonce kept for a share: 24 octets of its work identifier, then its own nonce. -/
def shareNonce (share : ShareEvidence) : Octets 32 :=
  BitVec.ofNat 256 (share.workId.toNat / 2 ^ 64 * 2 ^ 64 + share.nonce.toNat)

/-- The signer and nonce a record of the given type carries itself; `none` for a record
that does not decode and for the other types. -/
def recordPair (type : TransactionType) (record : Bytes) : Option (Octets 32 × Octets 32) :=
  match type with
  | .publication => (recordDecode record).toOption.map fun r => (r.signerPublicKey, r.nonce)
  | .shareEvidence =>
      (shareDecode record).toOption.map fun share => (share.miner.identifier, shareNonce share)
  | .compensationDestination =>
      (compensationDestinationDecode record).toOption.map fun d =>
        (d.miningIdentity.identifier, d.wallet.identifier)
  | .issuance =>
      (issuanceDecode record).toOption.map fun r =>
        (r.destination.miningIdentity.identifier, r.evidenceId)
  | .transfer => (transferEnvelopeDecode record).toOption.map fun e => (e.controller, e.nonce)
  | .authorityGrant | .authorityRevoke | .identityRotate | .contractAction
  | .blockCompensationEvidence => none

/-- The types whose records carry their signer and nonce. -/
def TransactionType.carriesPair : TransactionType → Bool
  | .publication | .shareEvidence | .compensationDestination | .issuance | .transfer => true
  | _ => false

/-- The statement a grant, revocation or rotation signs; `none` when it is malformed and
for the other types. -/
def lifecycleStatement (type : TransactionType) (record : Bytes) : Option Bytes :=
  match type with
  | .authorityGrant =>
      authorityGrantStatement (octetsAt record 1 32)
        (BigEndian.field record 33 authorityEvidenceSize)
  | .authorityRevoke => authorityRevocationStatement (octetsAt record 1 32) (octetsAt record 33 32)
  | .identityRotate => identityRotationStatement (octetsAt record 1 32) (octetsAt record 33 32)
  | _ => none

/-- The signer and nonce `stn_pending_insert` keeps. -/
def pendingPair (tx : Transaction) (provider : HashProvider) :
    Except PendingResult (Octets 32 × Octets 32) :=
  if tx.type.carriesPair then
    match recordPair tx.type tx.record with
    | none => .error .invalid
    | some pair => .ok pair
  else if tx.type = .contractAction then
    match contractTransactionDecode tx.record with
    | .error _ => .error .invalid
    | .ok action => .ok (action.actor, 0)
  else
    match lifecycleStatement tx.type tx.record with
    | none => .error .invalid
    | some statement =>
        match lifecycleReplayNonce tx.type statement provider with
        | .error _ => .error .provider
        | .ok nonce => .ok (octetsAt tx.record 1 32, nonce)

/-- The entry `stn_pending_insert` makes of a transaction. -/
def pendingEntry (bytes : Bytes) (provider : HashProvider) :
    Except PendingResult PendingEntry :=
  match transactionDecode bytes with
  | .error _ => .error .invalid
  | .ok tx =>
      match pendingPair tx provider with
      | .error result => .error result
      | .ok (signer, nonce) =>
          match transactionId bytes provider with
          | .error _ => .error .provider
          | .ok id => .ok ⟨id, signer, nonce, bytes⟩

/-- What the entry of a transaction records. -/
theorem pendingEntry_eq_ok {bytes : Bytes} {provider : HashProvider} {e : PendingEntry}
    (h : pendingEntry bytes provider = .ok e) :
    e.transaction = bytes ∧ transactionId bytes provider = .ok e.id ∧
      ∃ tx, transactionDecode bytes = .ok tx ∧
        pendingPair tx provider = .ok (e.signer, e.nonce) := by
  simp only [pendingEntry] at h
  split at h
  · simp at h
  next tx hdecode =>
  split at h
  · simp at h
  next signer nonce hpair =>
  split at h
  · simp at h
  next id hid =>
  obtain rfl := Except.ok.inj h
  exact ⟨rfl, hid, tx, hdecode, hpair⟩

theorem pendingPair_ne_accepted {tx : Transaction} {provider : HashProvider} :
    pendingPair tx provider ≠ .error .accepted := by
  intro h
  unfold pendingPair at h
  split at h
  · split at h <;> simp at h
  split at h
  · split at h <;> simp at h
  split at h
  · simp at h
  · split at h <;> simp at h

/-- A transaction without an entry is not accepted. -/
theorem pendingEntry_ne_accepted {bytes : Bytes} {provider : HashProvider} :
    pendingEntry bytes provider ≠ .error .accepted := by
  intro h
  unfold pendingEntry at h
  split at h
  · simp at h
  split at h
  · next hpair =>
      obtain rfl := Except.error.inj h
      exact pendingPair_ne_accepted hpair
  · split at h <;> simp at h

/-- The signer and nonce `stn_block_compensation_pending_admit` passes to its own insertion
routine: those of block-compensation evidence and of a block issuance. -/
def blockPair (tx : Transaction) : Option (Octets 32 × Octets 32) :=
  match tx.type with
  | .blockCompensationEvidence =>
      (blockCompensationDecode tx.record).toOption.map fun e => (e.miner.identifier, e.blockId)
  | .issuance =>
      match issuanceDecode tx.record with
      | .error _ => none
      | .ok r =>
          if r.reason = issuanceReasonBlock then
            some (r.destination.miningIdentity.identifier, r.evidenceId)
          else none
  | _ => none

/-- An entry has the identifier of its transaction, and the signer and nonce one of the
insertion routines keeps for it. -/
structure PendingEntry.Formed (provider : HashProvider) (e : PendingEntry) : Prop where
  id : transactionId e.transaction provider = .ok e.id
  pair : ∃ tx, transactionDecode e.transaction = .ok tx ∧
    (pendingPair tx provider = .ok (e.signer, e.nonce) ∨ blockPair tx = some (e.signer, e.nonce))

theorem pendingEntry_formed {bytes : Bytes} {provider : HashProvider} {e : PendingEntry}
    (h : pendingEntry bytes provider = .ok e) : e.Formed provider := by
  obtain ⟨rfl, hid, tx, hdecode, hpair⟩ := pendingEntry_eq_ok h
  exact ⟨hid, tx, hdecode, .inl hpair⟩

omit [Primitives] in
/-- The other routine keeps what the record of a block issuance carries itself. -/
theorem recordPair_of_blockPair {tx : Transaction} {pair : Octets 32 × Octets 32}
    (h : blockPair tx = some pair) (hcarries : tx.type.carriesPair = true) :
    recordPair tx.type tx.record = some pair := by
  unfold blockPair at h
  split at h
  · next htype => simp [htype, TransactionType.carriesPair] at hcarries
  · next htype =>
      split at h
      · simp at h
      next r hdecode =>
      split at h
      · rw [← h]
        simp [htype, recordPair, hdecode, Except.toOption]
      · simp at h
  · simp at h

theorem pendingPair_of_carries {tx : Transaction} {provider : HashProvider}
    {pair : Octets 32 × Octets 32} (h : pendingPair tx provider = .ok pair)
    (hcarries : tx.type.carriesPair = true) : recordPair tx.type tx.record = some pair := by
  simp only [pendingPair, hcarries, ↓reduceIte] at h
  split at h
  · simp at h
  · next hpair => rw [hpair, Except.ok.inj h]

/-- The pair kept for a transaction whose record carries one is that one. -/
theorem PendingEntry.Formed.recordPair_eq {provider : HashProvider} {e : PendingEntry}
    (h : e.Formed provider) {tx : Transaction} (hdecode : transactionDecode e.transaction = .ok tx)
    (hcarries : tx.type.carriesPair = true) :
    recordPair tx.type tx.record = some (e.signer, e.nonce) := by
  obtain ⟨tx', hdecode', hpair⟩ := h.pair
  obtain rfl := Except.ok.inj (hdecode'.symm.trans hdecode)
  rcases hpair with hpair | hpair
  · exact pendingPair_of_carries hpair hcarries
  · exact recordPair_of_blockPair hpair hcarries

/-! ## Pools -/

/-- `stn_pending`; its counters are the number and the total length of the entries. -/
structure Pending (provider : HashProvider) where
  entries : List PendingEntry
  formed : ∀ e ∈ entries, e.Formed provider
  sorted : SortedTable.Sorted PendingEntry.key entries
  count : entries.length ≤ pendingMaxEntries
  bytes : SortedTable.total (fun e => e.transaction.length) entries ≤ pendingMaxBytes

variable {provider : HashProvider}

/-- `stn_pending_init`. -/
def pendingInit (provider : HashProvider) : Pending provider where
  entries := []
  formed := by simp
  sorted := List.Pairwise.nil
  count := Nat.zero_le _
  bytes := Nat.zero_le _

/-- The identifier of the entry at which `find_id` stops. -/
def Pending.foundId (pool : Pending provider) (id : Octets 32) : Option (Octets 32) :=
  (SortedTable.above PendingEntry.key id.toNat pool.entries).head?.map PendingEntry.id

/-- `stn_pending_insert`; a result other than accepted leaves the pool as it was. -/
def pendingInsert (pool : Pending provider) (bytes : Bytes) :
    Except PendingResult (Pending provider) :=
  match hentry : pendingEntry bytes provider with
  | .error result => .error result
  | .ok e =>
      if hfound : pool.foundId e.id = some e.id then .error .duplicate
      else if hcapacity : pool.entries.length ≥ pendingMaxEntries ∨
          bytes.length > pendingMaxBytes -
            SortedTable.total (fun e => e.transaction.length) pool.entries then .error .capacity
      else .ok {
        entries := SortedTable.insert PendingEntry.key e pool.entries
        formed := by
          intro e' he'
          rcases SortedTable.mem_insert.mp he' with rfl | he'
          · exact pendingEntry_formed hentry
          · exact pool.formed e' he'
        sorted := by
          apply pool.sorted.insert
          intro x rest habove hkey
          apply hfound
          have hid : x.id = e.id := BitVec.eq_of_toNat_eq hkey
          have habove : SortedTable.above PendingEntry.key e.id.toNat pool.entries = x :: rest :=
            habove
          simp [Pending.foundId, habove, hid]
        count := by
          rw [SortedTable.length_insert]
          omega
        bytes := by
          have htransaction := (pendingEntry_eq_ok hentry).1
          have hpool := pool.bytes
          rw [SortedTable.total_insert, htransaction]
          omega }

/-- The entries a mask does not mark. -/
def unmarked : List PendingEntry → List Bool → List PendingEntry
  | e :: entries, marked :: mask =>
      if marked then unmarked entries mask else e :: unmarked entries mask
  | entries, _ => entries

omit [Primitives] in
theorem unmarked_sublist (entries : List PendingEntry) (mask : List Bool) :
    (unmarked entries mask).Sublist entries := by
  induction entries generalizing mask with
  | nil => simp [unmarked]
  | cons e entries ih =>
      cases mask with
      | nil => simp [unmarked]
      | cons marked mask =>
          simp only [unmarked]
          split
          · exact (ih mask).cons e
          · exact (ih mask).cons_cons e

/-- `stn_pending_prune`. -/
def pendingPrune (pool : Pending provider) (mask : List Bool) : Pending provider where
  entries := unmarked pool.entries mask
  formed e he := pool.formed e ((unmarked_sublist _ _).subset he)
  sorted := pool.sorted.sublist (unmarked_sublist _ _)
  count := (unmarked_sublist _ _).length_le.trans pool.count
  bytes := by
    have hsub := (unmarked_sublist pool.entries mask).map fun e => e.transaction.length
    exact (hsub.sum_le_sum fun _ _ => Nat.zero_le _).trans pool.bytes

end StnChain
