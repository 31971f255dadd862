import StnChain.Pending.Scan
import StnChain.Support.TalliedTable

/-!
# Operations on the pending pool

The pool as the source keeps it, a table of entries with a byte counter of type `size_t`,
and the operations that change it: `stn_pending_insert`, `stn_pending_remove` and
`stn_pending_prune`, and the second insertion routine of
`stn_block_compensation_candidate.c`.  `PendingPool.Sound` is what a pool keeps under all
of them; a sound pool is a `Pending`, on which they do what is defined there.
-/

namespace StnChain

variable [Primitives]

/-- Subtraction in `size_t`. -/
def sizeSub (a b : ℕ) : ℕ :=
  TalliedTable.counterSub (2 ^ 64) a b

/-- What a pool is sorted by, what it counts, and its limits. -/
def pendingLayout : TalliedTable.Layout PendingEntry ℕ where
  key := PendingEntry.key
  size e := e.transaction.length
  maxRows := pendingMaxEntries
  maxTally := pendingMaxBytes
  modulus := 2 ^ 64
  representable := by norm_num [pendingMaxBytes]

/-- `stn_pending`: its rows are the entries in use, as many as `count`, and its tally is
`bytes`. -/
abbrev PendingPool := TalliedTable.Table PendingEntry

namespace PendingPool

/-- The entries in use. -/
abbrev entries (pool : PendingPool) : List PendingEntry := pool.rows

/-- The recorded byte total. -/
abbrev bytes (pool : PendingPool) : ℕ := pool.tally

/-- `stn_pending_init`. -/
def empty : PendingPool := ⟨[], 0⟩

/-- What an operation on the pool returns: its result, the identifier it wrote to its
caller, `none` when it wrote none, and the pool. -/
structure Outcome where
  result : PendingResult
  id : Option (Octets 32)
  pool : PendingPool

/-- `stn_pending_insert`. -/
def insert (pool : PendingPool) (bytes : Bytes) (provider : HashProvider) : Outcome :=
  match pendingEntry bytes provider with
  | .error result => ⟨result, none, pool⟩
  | .ok e =>
      match pendingLayout.place e pool with
      | (.present, pool) => ⟨.duplicate, none, pool⟩
      | (.full, pool) => ⟨.capacity, none, pool⟩
      | (.placed, pool) => ⟨.accepted, some e.id, pool⟩

/-- `pending_insert_block`. -/
def insertBlock (pool : PendingPool) (bytes : Bytes) (provider : HashProvider)
    (signer nonce : Octets 32) : Outcome :=
  match transactionId bytes provider with
  | .error _ => ⟨.provider, none, pool⟩
  | .ok id =>
      match pendingLayout.place ⟨id, signer, nonce, bytes⟩ pool with
      | (.present, pool) => ⟨.duplicate, some id, pool⟩
      | (.full, pool) => ⟨.capacity, none, pool⟩
      | (.placed, pool) => ⟨.accepted, some id, pool⟩

/-- `stn_pending_remove`. -/
def remove (pool : PendingPool) (id : Octets 32) : PendingResult × PendingPool :=
  match pendingLayout.drop id.toNat pool with
  | none => (.notFound, pool)
  | some pool => (.accepted, pool)

/-- `stn_pending_prune`. -/
def prune (pool : PendingPool) (mask : List Bool) : PendingPool :=
  pendingLayout.compact pool mask

/-- The pool holds the identifier. -/
def has (pool : PendingPool) (id : Octets 32) : Bool :=
  pendingLayout.present id.toNat pool

/-- A round of `stn_pending_committed_inclusions`. -/
def committed (pool : PendingPool) (provider : HashProvider) (t : Bytes) :
    Except DataStatus (PendingEntry → Bool) :=
  match transactionDecode t with
  | .error _ => .error .content
  | .ok _ =>
      match transactionId t provider with
      | .error _ => .error .providerError
      | .ok id => .ok fun e => pool.entries.find? (fun x => x.id = id) = some e

/-- `stn_pending_committed_inclusions`. -/
def committedInclusions (pool : PendingPool) (provider : HashProvider) (blocks : List Bytes) :
    Except DataStatus (List Bool) :=
  match provider.hash with
  | none => .error .argument
  | some _ => markBlocks (pool.committed provider) pool.entries blocks

/-! ## Sound pools -/

/-- The entries are sorted and formed, and their lengths add up to the byte total within
the limits. -/
structure Sound (provider : HashProvider) (pool : PendingPool) : Prop extends
    pendingLayout.Sound pool where
  formed : ∀ e ∈ pool.entries, e.Formed provider

variable {provider : HashProvider} {pool : PendingPool}

theorem empty_sound : Sound provider empty where
  sorted := List.Pairwise.nil
  rows := Nat.zero_le _
  tally := rfl
  bounded := Nat.zero_le _
  formed := by simp [entries, empty]

theorem Sound.place (hpool : pool.Sound provider) {e : PendingEntry} (he : e.Formed provider) :
    Sound provider (pendingLayout.place e pool).2 where
  toSound := hpool.toSound.place e
  formed := by
    intro e' he'
    rcases TalliedTable.Layout.mem_place he' with rfl | he'
    · exact he
    · exact hpool.formed e' he'

theorem Sound.prune (hpool : pool.Sound provider) (mask : List Bool) :
    (pool.prune mask).Sound provider where
  toSound := hpool.toSound.compact mask
  formed e he := hpool.formed e ((TalliedTable.Layout.sweep_sublist _ _ _).subset he)

theorem Sound.remove (hpool : pool.Sound provider) (id : Octets 32) :
    (pool.remove id).2.Sound provider := by
  unfold PendingPool.remove
  split
  · exact hpool
  · next pool' hdrop =>
      constructor
      · exact hpool.toSound.drop hdrop
      · intro e he
        exact hpool.formed e ((TalliedTable.Layout.drop_sublist hdrop).subset he)

omit [Primitives] in
theorem remove_of_ne {id : Octets 32} (h : (pool.remove id).1 ≠ .accepted) :
    (pool.remove id).2 = pool := by
  unfold remove at h ⊢
  split
  · rfl
  · next hdrop => simp [hdrop] at h

/-! ## Growing by an entry -/

/-- The second pool is the first with one more entry, whose identifier is given. -/
def Grown (provider : HashProvider) (pool : PendingPool) (id : Option (Octets 32))
    (pool' : PendingPool) : Prop :=
  ∃ e : PendingEntry, e.Formed provider ∧ pendingLayout.place e pool = (.placed, pool') ∧
    id = some e.id

/-- An operation either accepts and adds an entry or leaves the pool alone. -/
def Settles (provider : HashProvider) (pool : PendingPool) (result : PendingResult)
    (id : Option (Octets 32)) (pool' : PendingPool) : Prop :=
  (result = .accepted ∧ Grown provider pool id pool') ∨ (result ≠ .accepted ∧ pool' = pool)

variable {result : PendingResult} {id : Option (Octets 32)} {pool' : PendingPool}

theorem Settles.refused (h : result ≠ .accepted) : Settles provider pool result id pool :=
  .inr ⟨h, rfl⟩

theorem Settles.of_ne (h : Settles provider pool result id pool') (hne : result ≠ .accepted) :
    pool' = pool := by
  rcases h with ⟨haccepted, -⟩ | ⟨-, hsame⟩
  · exact absurd haccepted hne
  · exact hsame

theorem Settles.grown (h : Settles provider pool result id pool') (hresult : result = .accepted) :
    Grown provider pool id pool' := by
  rcases h with ⟨-, hgrown⟩ | ⟨hne, -⟩
  · exact hgrown
  · exact absurd hresult hne

theorem Grown.sound (h : Grown provider pool id pool') (hpool : pool.Sound provider) :
    pool'.Sound provider := by
  obtain ⟨e, he, hplace, -⟩ := h
  have hsound := hpool.place he
  rwa [hplace] at hsound

theorem Settles.sound (h : Settles provider pool result id pool') (hpool : pool.Sound provider) :
    pool'.Sound provider := by
  rcases h with ⟨-, hgrown⟩ | ⟨-, rfl⟩
  · exact hgrown.sound hpool
  · exact hpool

/-- Removing the entry just added restores the pool, its byte total included. -/
theorem Grown.remove {added : Octets 32} (h : Grown provider pool (some added) pool')
    (hpool : pool.Sound provider) : pool'.remove added = (.accepted, pool) := by
  obtain ⟨e, -, hplace, hid⟩ := h
  obtain rfl := Option.some.inj hid
  have hplaced : (pendingLayout.place e pool).1 = .placed := by
    rw [hplace]
  have hdrop := hpool.toSound.drop_place hplaced
  rw [hplace] at hdrop
  have hdrop : pendingLayout.drop e.id.toNat pool' = some pool := hdrop
  simp [PendingPool.remove, hdrop]

theorem insert_settles (pool : PendingPool) (bytes : Bytes) (provider : HashProvider) :
    Settles provider pool (pool.insert bytes provider).result (pool.insert bytes provider).id
      (pool.insert bytes provider).pool := by
  unfold insert
  split
  · next result hentry =>
      by_cases hresult : result = .accepted
      · exact absurd (hresult ▸ hentry) pendingEntry_ne_accepted
      · exact .refused hresult
  next e hentry =>
  have hkept := TalliedTable.Layout.place_of_ne (l := pendingLayout) (x := e) (t := pool)
  split
  · next pool' hplace =>
      rw [hplace] at hkept
      exact .inr ⟨by simp, hkept (by simp)⟩
  · next pool' hplace =>
      rw [hplace] at hkept
      exact .inr ⟨by simp, hkept (by simp)⟩
  · next pool' hplace => exact .inl ⟨rfl, e, pendingEntry_formed hentry, hplace, rfl⟩

/-- With the signer and nonce of its transaction, the other routine settles as well. -/
theorem insertBlock_settles (pool : PendingPool) {bytes : Bytes} {provider : HashProvider}
    {signer nonce : Octets 32} {tx : Transaction} (hdecode : transactionDecode bytes = .ok tx)
    (hpair : blockPair tx = some (signer, nonce)) :
    Settles provider pool (pool.insertBlock bytes provider signer nonce).result
      (pool.insertBlock bytes provider signer nonce).id
      (pool.insertBlock bytes provider signer nonce).pool := by
  unfold insertBlock
  split
  · exact .refused (by simp)
  next id hid =>
  have hkept := TalliedTable.Layout.place_of_ne (l := pendingLayout)
    (x := ⟨id, signer, nonce, bytes⟩) (t := pool)
  split
  · next pool' hplace =>
      rw [hplace] at hkept
      exact .inr ⟨by simp, hkept (by simp)⟩
  · next pool' hplace =>
      rw [hplace] at hkept
      exact .inr ⟨by simp, hkept (by simp)⟩
  · next pool' hplace =>
      exact .inl ⟨rfl, ⟨id, signer, nonce, bytes⟩, ⟨hid, tx, hdecode, .inr hpair⟩, hplace, rfl⟩

/-! ## Sound pools as pools of the other model -/

/-- A sound pool, with its invariants as fields. -/
def Sound.toPending (hpool : pool.Sound provider) : Pending provider where
  entries := pool.entries
  formed := hpool.formed
  sorted := hpool.sorted
  count := hpool.rows
  bytes := hpool.tally ▸ hpool.bounded

omit [Primitives] in
theorem has_iff {id : Octets 32} : pool.has id = true ↔
    (SortedTable.above PendingEntry.key id.toNat pool.entries).head?.map PendingEntry.id =
      some id := by
  have hkey (e : PendingEntry) : e.key = id.toNat ↔ e.id = id :=
    ⟨BitVec.eq_of_toNat_eq, congrArg BitVec.toNat⟩
  unfold has TalliedTable.Layout.present
  cases habove : SortedTable.above PendingEntry.key id.toNat pool.entries with
  | nil => simp [pendingLayout, habove]
  | cons e rest => simp [pendingLayout, habove, hkey]

/-- `stn_pending_insert` on a sound pool, by result and entries. -/
theorem pendingInsert_toPending (hpool : pool.Sound provider) (bytes : Bytes) :
    (pendingInsert hpool.toPending bytes).map Pending.entries =
      if (pool.insert bytes provider).result = .accepted then
        .ok (pool.insert bytes provider).pool.entries
      else .error (pool.insert bytes provider).result := by
  have hroom : TalliedTable.counterSub pendingLayout.modulus pendingLayout.maxTally pool.tally =
      pendingMaxBytes -
        SortedTable.total (fun e => e.transaction.length) hpool.toPending.entries := by
    rw [TalliedTable.counterSub_of_le pendingLayout.representable hpool.bounded, hpool.tally]
    rfl
  have hfound (e : PendingEntry) : hpool.toPending.foundId e.id = some e.id ↔
      pendingLayout.present (pendingLayout.key e) pool = true := has_iff.symm
  unfold pendingInsert
  split
  · next result hentry =>
      have hne : result ≠ .accepted := fun h => pendingEntry_ne_accepted (h ▸ hentry)
      simp [insert, hentry, hne, Except.map]
  next e hentry =>
  have htransaction := (pendingEntry_eq_ok hentry).1
  by_cases hpresent : pendingLayout.present (pendingLayout.key e) pool = true
  · rw [dif_pos ((hfound e).mpr hpresent)]
    simp [insert, hentry, TalliedTable.Layout.place, hpresent, Except.map]
  rw [dif_neg (mt (hfound e).mp hpresent)]
  have hcapacity : (hpool.toPending.entries.length ≥ pendingMaxEntries ∨
      bytes.length > pendingMaxBytes -
        SortedTable.total (fun e => e.transaction.length) hpool.toPending.entries) ↔
      (pool.rows.length ≥ pendingLayout.maxRows ∨ pendingLayout.size e >
        TalliedTable.counterSub pendingLayout.modulus pendingLayout.maxTally pool.tally) := by
    rw [hroom, ← htransaction]
    rfl
  by_cases hfull : pool.rows.length ≥ pendingLayout.maxRows ∨ pendingLayout.size e >
      TalliedTable.counterSub pendingLayout.modulus pendingLayout.maxTally pool.tally
  · rw [dif_pos (hcapacity.mpr hfull)]
    simp [insert, hentry, TalliedTable.Layout.place, hpresent, hfull, Except.map]
  · rw [dif_neg (mt hcapacity.mp hfull)]
    simp [insert, hentry, TalliedTable.Layout.place, hpresent, hfull, Except.map]
    rfl

/-- `stn_pending_committed_inclusions` on a sound pool. -/
theorem pendingCommittedInclusions_toPending (hpool : pool.Sound provider) (blocks : List Bytes) :
    pendingCommittedInclusions hpool.toPending blocks = pool.committedInclusions provider blocks :=
  rfl

/-- `stn_pending_prune` on a sound pool. -/
theorem pendingPrune_toPending (hpool : pool.Sound provider) (mask : List Bool) :
    (pendingPrune hpool.toPending mask).entries = (pool.prune mask).entries := by
  have hsweep (entries : List PendingEntry) (mask : List Bool) (tally : ℕ) :
      unmarked entries mask = (pendingLayout.sweep entries mask tally).1 := by
    induction entries generalizing mask tally with
    | nil => simp [unmarked, TalliedTable.Layout.sweep]
    | cons e entries ih =>
        cases mask with
        | nil => rfl
        | cons marked mask =>
            simp only [unmarked, TalliedTable.Layout.sweep]
            split
            · exact ih mask _
            · exact congrArg (e :: ·) (ih mask tally)
  exact hsweep pool.entries mask pool.bytes

end PendingPool

end StnChain
