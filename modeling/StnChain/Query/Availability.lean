import StnChain.Chain.LifecycleRun
import StnChain.Query.Search

/-!
# Availability of the record queries

Which accepted histories the record queries of `stn_chain.c` answer on.  Along a
history of lifecycle transactions the walk of the search follows the accepted
lifecycle; `queriesAnswer_iff` says that on every other history some query fails.
-/

namespace StnChain

open EarlyExit

section

variable [Primitives]

/-! ## Providers that do not fail -/

omit [Primitives] in
theorem HashProvider.Total.recordId {provider : HashProvider} (h : provider.Total)
    {bytes : Bytes} {record : Record} (hdecode : recordDecode bytes = .ok record) :
    ∃ id, recordId bytes provider = .ok id := by
  obtain ⟨id, hid⟩ := h.digest (ascii "STN-CHAIN:RECORD:ID:1") (recordUnsigned bytes record)
  obtain ⟨hash, hsome, -⟩ := h
  exact ⟨id, by simp [StnChain.recordId, hsome, hdecode, hid]⟩

omit [Primitives] in
theorem HashProvider.Total.publicationTokens {provider : HashProvider} (h : provider.Total)
    {bytes : Bytes} {record : Record} (hdecode : recordDecode bytes = .ok record) :
    ∃ tokens, recordPublicationTokens bytes provider = .ok tokens := by
  obtain ⟨action, haction⟩ := h.digest (ascii "STN-CHAIN:AUTHORITY:ACTION:PUBLISH_RECORD:1") []
  obtain ⟨context, hcontext⟩ :=
    h.digest (ascii "STN-CHAIN:AUTHORITY:CONTEXT:RECORD_CLASS:1") (BigEndian.field bytes 6 2)
  exact ⟨(versionedToken action, versionedToken context), by
    simp [recordPublicationTokens, hdecode, haction, hcontext, bind, Except.bind, pure,
      Except.pure]⟩

/-- A grant that validates has well-formed evidence and an identifier. -/
theorem HashProvider.Total.grant {provider : HashProvider} (h : provider.Total)
    {grant : Bytes} {roots : List (Octets 32)}
    (hvalid : authorityGrantValidate grant roots = .valid) :
    authorityEvidenceValidate (BigEndian.field grant 33 authorityEvidenceSize) = true ∧
      ∃ id, authorityGrantId grant provider = .ok id := by
  simp only [authorityGrantValidate] at hvalid
  split at hvalid
  · simp at hvalid
  next hshape =>
  split at hvalid
  · simp at hvalid
  split at hvalid
  · simp at hvalid
  next statement hstatement =>
  simp only [authorityGrantStatement] at hstatement
  split at hstatement
  · simp at hstatement
  next id hid =>
  split at hstatement
  · simp at hstatement
  next hevidence =>
  have hevidence : authorityEvidenceValidate (BigEndian.field grant 33 authorityEvidenceSize) =
      true := by simpa using hevidence
  obtain ⟨hlength, hversion⟩ := not_or.mp hshape
  obtain ⟨hash, hsome, htotal⟩ := h
  obtain ⟨digest, hdigest⟩ := htotal [] grant
  refine ⟨hevidence, digest, ?_⟩
  simp [authorityGrantId, not_not.mp hlength, not_not.mp hversion, hid, hevidence, hsome, hdigest]

theorem publicationAuthorized_of_valid {provider : HashProvider} (h : provider.Total)
    {s : LifecycleState} {roots : List (Octets 32)} {grants : List Bytes}
    (hgrants : ∀ grant ∈ grants, authorityGrantValidate grant roots = .valid)
    (signer action context : Octets 32) (authorized : Bool) :
    ∃ b, publicationAuthorized s signer action context provider authorized grants = .ok b := by
  induction grants generalizing authorized with
  | nil => exact ⟨authorized, rfl⟩
  | cons grant rest ih =>
      obtain ⟨hgrant, hrest⟩ := List.forall_mem_cons.mp hgrants
      obtain ⟨hevidence, id, hid⟩ := h.grant hgrant
      simp only [publicationAuthorized, hevidence, hid, Bool.not_true, Bool.false_eq_true,
        ↓reduceIte]
      exact ih hrest _

/-- The check of a publication does not fail on the provider or on capacity. -/
theorem lifecycleCheckPublication_of_valid {provider : HashProvider} (h : provider.Total)
    {s : LifecycleState} {roots : List (Octets 32)}
    (hgrants : ∀ grant ∈ s.grants, authorityGrantValidate grant roots = .valid) (bytes : Bytes) :
    lifecycleCheckPublication s bytes provider ≠ .provider ∧
      lifecycleCheckPublication s bytes provider ≠ .capacity := by
  simp only [lifecycleCheckPublication]
  split
  · simp
  next record hdecode =>
  obtain ⟨⟨action, context⟩, htokens⟩ := h.publicationTokens hdecode
  obtain ⟨id, hid⟩ := h.recordId hdecode
  obtain ⟨b, hauthorized⟩ :=
    publicationAuthorized_of_valid h hgrants record.signerPublicKey action context false (s := s)
  simp only [htokens, hid, hauthorized]
  split
  · simp
  split
  · simp
  split
  · simp
  cases b with
  | false => simp
  | true =>
      dsimp only
      split
      · simp
      · split <;> simp

/-! ## Replay sets with room -/

omit [Primitives] in
/-- A set with room takes an identifier or has it already. -/
theorem replayStateConsume_of_lt {s : ReplayState} {id : ReplayId}
    (h : s.consumed.length < s.capacity) :
    replayStateConsume s id = if id ∈ s.consumed then (.replay, s)
      else (.fresh, { s with consumed := s.consumed ++ [id] }) := by
  simp only [replayStateConsume, replayStateCheck_of_le (Nat.le_of_lt h),
    if_neg (Nat.not_lt.mpr (Nat.le_of_lt h)), if_neg (Nat.ne_of_lt h)]
  by_cases hmem : id ∈ s.consumed <;> simp [hmem]

omit [Primitives] in
theorem replayStateConsume_of_mem {s : ReplayState} {id : ReplayId}
    (h : s.consumed.length ≤ s.capacity) (hmem : id ∈ s.consumed) :
    replayStateConsume s id = (.replay, s) := by
  simp [replayStateConsume, replayStateCheck_of_le h, Nat.not_lt.mpr h, hmem]

omit [Primitives] in
theorem consumeReplayId_of_fresh {s : LifecycleState} {signer nonce : Octets 32} {id : ReplayId}
    (hid : replayIdFromSignerNonce signer nonce = some id)
    (hfresh : replayStateCheck s.replay id = .fresh)
    (hroom : s.replay.consumed.length < s.replay.capacity) :
    consumeReplayId s signer nonce =
      (.ok, { s with replay := { s.replay with consumed := s.replay.consumed ++ [id] } }) := by
  have hmem : id ∉ s.replay.consumed := by
    rw [replayStateCheck_of_le (Nat.le_of_lt hroom)] at hfresh
    by_contra hmem
    simp [hmem] at hfresh
  simp [consumeReplayId, hid, hfresh, replayStateConsume_of_lt hroom, hmem]

/-- A publication consumes the identifier of its signer and nonce. -/
theorem lifecycleApplyTransaction_publication {s : LifecycleState} {tx : Transaction}
    (htype : tx.type = .publication) {record : Record}
    (hdecode : recordDecode tx.record = .ok record) (roots : List (Octets 32))
    (provider : HashProvider) :
    lifecycleApplyTransaction s tx roots provider =
      consumeReplayId s record.signerPublicKey record.nonce := by
  simp [lifecycleApplyTransaction, htype, hdecode]

/-! ## The walk follows the accepted lifecycle -/

/-- The walk was left with a record. -/
def SearchExit.IsFound : SearchExit → Prop
  | .found _ _ => True
  | .failed _ => False

/-- The walk was left with a record, unless the hash provider can fail. -/
def SearchExit.FoundIfTotal (c : ChainContext) (e : SearchExit) : Prop :=
  c.hashProvider.Total → e.IsFound

/-- The projections of a walk beside an accepted lifecycle, with room for `m` further
grants and `n` further transactions. -/
structure SearchFollows (c : ChainContext) (lifecycle : LifecycleState) (m n : ℕ)
    (w : SearchState) : Prop where
  historical : ∃ grants replays, w.historical = lifecycleRebind lifecycle grants replays
  valid : ∀ grant ∈ w.historical.grants,
    authorityGrantValidate grant c.genesisAuthorityRoots = .valid
  room : w.historical.Room m n
  eligible : w.eligible.consumed.length + n ≤ w.eligible.capacity

/-- An observed publication is returned, or leaves the accepted lifecycle as it is and
consumes nothing but its own identifier. -/
theorem observePublication_follows {c : ChainContext} {k : SearchKey} {bytes : Bytes}
    (hblock : ∃ id, chainBlockId bytes c.hashProvider = .ok id) {height : UInt64} {j : ℕ}
    {t : Bytes} {tx : Transaction} (htype : tx.type = .publication)
    {lifecycle : LifecycleState} {m n : ℕ} {w : SearchState}
    (h : SearchFollows c lifecycle m (n + 1) w) :
    Ends (SearchExit.FoundIfTotal c)
      (fun w' => w'.historical = w.historical ∧ w'.eligible.capacity = w.eligible.capacity ∧
        (w'.eligible = w.eligible ∨ ∃ record id, recordDecode tx.record = .ok record ∧
          replayIdFromSignerNonce record.signerPublicKey record.nonce = some id ∧
          w'.eligible.consumed = w.eligible.consumed ++ [id]))
      (observePublication c k bytes height j t tx w) := by
  have hcheck (htotal : c.hashProvider.Total) := lifecycleCheckPublication_of_valid htotal
    (s := { w.historical with replay := w.eligible }) h.valid tx.record
  simp only [observePublication]
  split
  · next hprovider => exact fun htotal => absurd hprovider (hcheck htotal).1
  · next hcapacity => exact fun htotal => absurd hcapacity (hcheck htotal).2
  · next hok =>
      obtain ⟨record, id, hdecode, hid, hfresh, -⟩ := lifecycleCheckPublication_eq_ok hok
      have happly := consumeReplayId_of_fresh
        (s := { w.historical with replay := w.eligible }) hid hfresh (by
          have := h.eligible
          dsimp only
          omega)
      obtain ⟨blockId, hblockId⟩ := hblock
      split
      · next status hrecord =>
          intro htotal
          obtain ⟨rid, hrid⟩ := htotal.recordId hdecode
          rw [hrid] at hrecord
          cases hrecord
      simp only [lifecycleApplyTransaction_publication htype hdecode, happly]
      split
      · simp only [hblockId]
        exact fun _ => trivial
      · exact ⟨rfl, rfl, .inr ⟨record, id, hdecode, hid, rfl⟩⟩
  · exact ⟨rfl, rfl, .inl rfl⟩

/-- Applying an accepted transaction to the projections follows the accepted lifecycle. -/
theorem advanceHistorical_follows {exit : SearchExit → Prop} {c : ChainContext}
    {tx : Transaction} {lifecycle lifecycle' : LifecycleState} {grants replays m n : ℕ}
    {w : SearchState}
    (happly : lifecycleApplyTransaction lifecycle tx c.genesisAuthorityRoots c.hashProvider =
      (.ok, lifecycle'))
    (hroom : lifecycle.Room tx.granted.length 1)
    (hhistorical : w.historical = lifecycleRebind lifecycle grants replays)
    (hvalid : ∀ grant ∈ w.historical.grants,
      authorityGrantValidate grant c.genesisAuthorityRoots = .valid)
    (hroom' : w.historical.Room (tx.granted.length + m) (n + 1))
    (heligible : w.eligible.consumed.length + (n + 1) ≤ w.eligible.capacity ∨
      (w.eligible.consumed.length + n ≤ w.eligible.capacity ∧
        ∃ id ∈ w.eligible.consumed, lifecycle'.replay.consumed.getLast? = some id)) :
    Ends exit (SearchFollows c lifecycle' m n) (advanceHistorical c tx w) := by
  have hadvance := lifecycleApplyTransaction_eq_ok happly
  have hstep : lifecycleApplyTransaction w.historical tx c.genesisAuthorityRoots
      c.hashProvider = (.ok, lifecycleRebind lifecycle' grants replays) := by
    rw [hhistorical] at hroom' ⊢
    rw [lifecycleApplyTransaction_rebind hroom ⟨by have := hroom'.grants; omega,
      by have := hroom'.replays; omega⟩, happly]
    rfl
  have hadvance' := lifecycleApplyTransaction_eq_ok hstep
  obtain ⟨id, hreplay⟩ := hadvance.replay
  have hlast : lifecycle'.replay.consumed.getLast? = some id := by simp [hreplay]
  have hfollows {eligible : ReplayState}
      (hspace : eligible.consumed.length + n ≤ eligible.capacity) :
      SearchFollows c lifecycle' m n ⟨lifecycleRebind lifecycle' grants replays, eligible⟩ := by
    refine ⟨⟨grants, replays, rfl⟩, fun grant hgrant => ?_, hadvance'.room hroom', hspace⟩
    rw [hadvance'.grants, List.mem_append] at hgrant
    exact hgrant.elim (hvalid grant) (hadvance'.valid grant)
  simp only [advanceHistorical, hstep]
  rw [show (lifecycleRebind lifecycle' grants replays).replay.consumed.getLast? = some id from
    hlast]
  rcases heligible with hspace | ⟨hspace, id', hmem, hlast'⟩
  · have hlt : w.eligible.consumed.length < w.eligible.capacity := by omega
    simp only [replayStateConsume_of_lt hlt]
    by_cases hmem : id ∈ w.eligible.consumed
    · simp only [hmem, ↓reduceIte]
      exact hfollows (by omega)
    · simp only [hmem, ↓reduceIte]
      exact hfollows (by simp only [List.length_append, List.length_singleton]; omega)
  · obtain rfl : id = id' := by simpa [hlast] using hlast'
    simp only [replayStateConsume_of_mem (s := w.eligible) (by omega) hmem]
    exact hfollows hspace

/-- What the walk needs to know of the block it is in. -/
structure BlockOf (c : ChainContext) (activation : UInt64) (bytes : Bytes) (env : CandidateEnv) :
    Prop where
  context : env.context = c
  identified : ∃ id, chainBlockId bytes c.hashProvider = .ok id
  activated : env.prior.publicationActivationHeight = activation
  flagged : ∀ tx ∈ historyTransactions [bytes], tx.type.isLifecycle = true →
    (tx.type = .publication → activation ≤ env.header.height) → env.hasLifecycle = true

/-- A round over an accepted lifecycle transaction returns a record or follows. -/
theorem searchTransaction_follows {c : ChainContext} {activation : UInt64}
    {k : SearchKey} {bytes : Bytes} {env : CandidateEnv}
    (hblock : BlockOf c activation bytes env) {t : Bytes} {tx : Transaction}
    (hdecode : transactionDecode t = .ok tx) (hmem : tx ∈ historyTransactions [bytes])
    (htype : tx.type.isLifecycle = true) {s : ChainState} {lifecycle' : LifecycleState}
    (happly : applyLifecycle env tx s.lifecycle = .ok lifecycle') {m n : ℕ}
    (hroom : RoomFor env s tx.granted.length 1) {w : SearchState}
    (h : SearchFollows c s.lifecycle (tx.granted.length + m) (n + 1) w) (j : ℕ) :
    Ends (SearchExit.FoundIfTotal c) (SearchFollows c lifecycle' m n)
      (searchTransaction c activation k bytes env.header.height w (t, j)) := by
  obtain ⟨grants, replays, hhistorical⟩ := h.historical
  have happly := applyLifecycle_eq_ok happly
  rw [hblock.activated, hblock.context] at happly
  simp only [searchTransaction, hdecode]
  by_cases hpublication : tx.type = .publication
  · have hgranted : tx.granted = [] := by simp [Transaction.granted, hpublication]
    simp only [if_pos hpublication]
    refine (observePublication_follows hblock.identified hpublication h).bind ?_
    rintro w' ⟨hsame, hcapacity, heligible⟩
    rw [hgranted, List.length_nil, Nat.zero_add] at h
    split
    · next hbelow =>
        -- Below the activation height nothing reaches the accepted lifecycle.
        obtain rfl : lifecycle' = s.lifecycle := by
          rcases happly with ⟨hskip, -⟩ | ⟨-, hnot, -⟩
          · exact hskip
          · exact absurd ⟨hpublication, hbelow⟩ hnot
        refine ⟨⟨grants, replays, hsame ▸ hhistorical⟩, hsame ▸ h.valid, ?_, ?_⟩
        · have hgrants := h.room.grants
          have hreplays := h.room.replays
          rw [hsame]
          exact ⟨hgrants, by omega⟩
        · have hspace := h.eligible
          rcases heligible with heq | ⟨_, _, -, -, heq⟩
          · rw [heq]
            omega
          · rw [heq, hcapacity, List.length_append, List.length_singleton]
            omega
    · next habove =>
        have hflag := hblock.flagged tx hmem htype fun _ => UInt64.not_lt.mp habove
        rcases happly with ⟨-, hskip⟩ | ⟨-, -, happly⟩
        · rcases hskip with hnone | ⟨-, hbelow⟩
          · simp [hflag] at hnone
          · exact absurd hbelow habove
        refine advanceHistorical_follows happly (hroom hflag) (hsame.trans hhistorical)
          (hsame ▸ h.valid) (by rw [hsame, hgranted]; simpa using h.room) ?_
        rcases heligible with heq | ⟨record, id, hrecord, hid, heq⟩
        · exact .inl (heq ▸ h.eligible)
        · refine .inr ⟨?_, id, by simp [heq], ?_⟩
          · have hspace := h.eligible
            rw [heq, hcapacity, List.length_append, List.length_singleton]
            omega
          · -- The accepted lifecycle consumed the same identifier.
            rw [lifecycleApplyTransaction_publication hpublication hrecord] at happly
            obtain ⟨id', hid', -, rfl⟩ := consumeReplayId_eq_ok happly
            obtain rfl : id = id' := by simpa [hid] using hid'
            simp
  · simp only [if_neg hpublication]
    have hflag := hblock.flagged tx hmem htype fun h => absurd h hpublication
    rcases happly with ⟨-, hskip⟩ | ⟨-, -, happly⟩
    · rcases hskip with hnone | ⟨hpub, -⟩
      · simp [hflag] at hnone
      · exact absurd hpub hpublication
    exact advanceHistorical_follows happly (hroom hflag) hhistorical h.valid h.room
      (.inl h.eligible)

/-- The grants among transactions. -/
def grantsOf (txs : List Transaction) : List Bytes :=
  txs.flatMap (·.granted)

omit [Primitives] in
theorem length_grantsOf_le (txs : List Transaction) : (grantsOf txs).length ≤ txs.length := by
  induction txs with
  | nil => rfl
  | cons tx rest ih =>
      have hhead := tx.length_granted_le
      simp only [grantsOf, List.flatMap_cons, List.length_append, List.length_cons] at ih ⊢
      omega

/-- The walk over transactions that apply follows their run. -/
theorem Applied.search_follows {c : ChainContext} {activation : UInt64}
    {k : SearchKey} {bytes : Bytes} {env : CandidateEnv}
    (hblock : BlockOf c activation bytes env) {ts : List Bytes} {s s' : ChainState}
    (h : Applied env ts s s')
    (hts : ∀ tx ∈ decodedTransactions ts, tx ∈ historyTransactions [bytes] ∧
      tx.type.isLifecycle = true)
    (hroom : RoomFor env s (grantsOf (decodedTransactions ts)).length ts.length) {m n : ℕ}
    {w : SearchState} (j : ℕ)
    (hw : SearchFollows c s.lifecycle ((grantsOf (decodedTransactions ts)).length + m)
      (ts.length + n) w) :
    Ends (SearchExit.FoundIfTotal c) (SearchFollows c s'.lifecycle m n)
      ((ts.zipIdx j).foldlM (searchTransaction c activation k bytes env.header.height) w) := by
  induction h generalizing w j with
  | nil => simpa [grantsOf, Ends, pure, Except.pure] using hw
  | @single t tx rest s s₁ s' hdecode htype hstep hrest ih =>
      rw [decodedTransactions_cons hdecode] at hts hroom hw
      obtain ⟨⟨hmem, hlifecycle⟩, htail⟩ := List.forall_mem_cons.mp hts
      simp only [grantsOf, List.flatMap_cons, List.length_append, List.length_cons] at hroom hw
      have happly : applyLifecycle env tx s.lifecycle = .ok s₁.lifecycle := by
        cases stepOf_of_applyTransaction hstep with
        | lifecycle _ happly => exact happly
        | _ htype => simp [htype, TransactionType.isLifecycle] at hlifecycle
      rw [List.zipIdx_cons, List.foldlM_cons]
      have hsmall := hroom.mono (Nat.le_add_right _ _) (Nat.le_add_left 1 _)
      rw [Nat.add_assoc, Nat.add_right_comm] at hw
      refine (searchTransaction_follows hblock hdecode hmem hlifecycle happly hsmall hw
        j).bind fun w' hw' => ?_
      exact ih htail (applyTransaction_room hstep hroom) _ hw'
  | @pair t next tx rest s s₁ s' hdecode htype hstep hrest ih =>
      have hlifecycle := (hts tx (by simp [decodedTransactions_cons hdecode])).2
      simp [htype, TransactionType.isLifecycle] at hlifecycle

/-! ## Histories of lifecycle transactions -/

omit [Primitives] in
theorem Transaction.checkable_of_lifecycle {tx : Transaction} (h : tx.type.isLifecycle = true)
    (height : UInt64) (tip : Octets 32) : tx.checkable height tip = true := by
  cases htype : tx.type <;> simp_all [Transaction.checkable, TransactionType.isLifecycle]

theorem historyTransactions_cons (bytes : Bytes) (rest : List Bytes) :
    historyTransactions (bytes :: rest) =
      historyTransactions [bytes] ++ historyTransactions rest :=
  historyTransactions_append [bytes] rest

/-- Blocks of lifecycle transactions are checkable on any tip. -/
theorem checkableFrom_of_lifecycle {blocks : List Bytes}
    (h : ∀ tx ∈ historyTransactions blocks, tx.type.isLifecycle = true)
    (provider : HashProvider) (tip : Octets 32) : checkableFrom provider tip blocks = true := by
  induction blocks generalizing tip with
  | nil => rfl
  | cons bytes rest ih =>
      rw [historyTransactions_cons] at h
      have hrest := ih fun tx htx => h tx (List.mem_append_right _ htx)
      simp only [checkableFrom, Bool.and_eq_true]
      constructor
      · simp only [blockCheckable]
        split
        · rfl
        next b hdecode =>
        rw [historyTransactions_singleton hdecode] at h
        exact List.all_eq_true.mpr fun tx htx =>
          Transaction.checkable_of_lifecycle (h tx (List.mem_append_left _ htx)) _ _
      · split
        · rfl
        · exact hrest _

theorem foldlM_countGrant {ts : List Bytes} (h : ∀ t ∈ ts, ∃ tx, transactionDecode t = .ok tx)
    (grants : ℕ) :
    ts.foldlM countGrant grants = .ok (grants + (grantsOf (decodedTransactions ts)).length) := by
  induction ts generalizing grants with
  | nil => rfl
  | cons t ts ih =>
      obtain ⟨⟨tx, hdecode⟩, hrest⟩ := List.forall_mem_cons.mp h
      have hround : countGrant grants t = .ok (grants + tx.granted.length) := by
        simp only [countGrant, hdecode, Transaction.granted]
        split <;> rfl
      rw [decodedTransactions_cons hdecode, List.foldlM_cons, hround]
      refine (ih hrest _).trans ?_
      simp [grantsOf, Nat.add_assoc]

theorem length_decodedTransactions {ts : List Bytes}
    (h : ∀ t ∈ ts, ∃ tx, transactionDecode t = .ok tx) :
    (decodedTransactions ts).length = ts.length := by
  induction ts with
  | nil => rfl
  | cons t ts ih =>
      obtain ⟨⟨tx, hdecode⟩, hrest⟩ := List.forall_mem_cons.mp h
      rw [decodedTransactions_cons hdecode, List.length_cons, List.length_cons, ih hrest]

/-- The storage counts of a history that decodes. -/
theorem countTransactions_eq {blocks : List Bytes}
    (h : ∀ bytes ∈ blocks, ∃ b, blockDecode bytes = .ok b) :
    countTransactions blocks = .ok ((historyTransactions blocks).length,
      (grantsOf (historyTransactions blocks)).length) := by
  have hcount : ∀ (blocks : List Bytes) (count : ℕ × ℕ),
      (∀ bytes ∈ blocks, ∃ b, blockDecode bytes = .ok b) →
      blocks.foldlM countBlock count = .ok (count.1 + (historyTransactions blocks).length,
        count.2 + (grantsOf (historyTransactions blocks)).length) := by
    intro blocks
    induction blocks with
    | nil => exact fun count _ => rfl
    | cons bytes rest ih =>
        intro count hdecode
        obtain ⟨⟨b, hb⟩, hrest⟩ := List.forall_mem_cons.mp hdecode
        have hbody := Block.decode_transactions hb
        have hround : countBlock count bytes =
            .ok (count.1 + (historyTransactions [bytes]).length,
              count.2 + (grantsOf (historyTransactions [bytes])).length) := by
          simp [countBlock, hb, foldlM_countGrant hbody, historyTransactions_singleton hb,
            length_decodedTransactions hbody]
        rw [List.foldlM_cons, hround, historyTransactions_cons bytes rest]
        refine (ih _ hrest).trans ?_
        simp [grantsOf, Nat.add_assoc]
  simpa [countTransactions] using hcount blocks (0, 0) h

omit [Primitives] in
theorem lifecycleNew_empty (c : ChainContext) :
    (lifecycleNew c).grants = [] ∧ (lifecycleNew c).replay.consumed = [] := by
  simp only [lifecycleNew, lifecycleSetInitialIdentities]
  split <;> exact ⟨rfl, rfl⟩

/-- Before the walk the projections are those of the empty state. -/
theorem searchInitial_follows (c : ChainContext) (activation : UInt64) (total grants : ℕ) :
    SearchFollows c (emptyState c activation).lifecycle grants total
      (searchInitial c total grants) := by
  obtain ⟨hgrants, hreplay⟩ := lifecycleNew_empty c
  have hinitial : (searchInitial c total grants).historical =
      lifecycleRebind (lifecycleNew c) grants total := by
    simp only [searchInitial, lifecycleNew, lifecycleSetInitialIdentities]
    split <;> rfl
  refine ⟨⟨_, _, hinitial⟩, ?_, ?_, Nat.zero_add total |>.le⟩
  · rw [hinitial]
    simp [lifecycleRebind, hgrants]
  · rw [hinitial]
    constructor <;> simp [lifecycleRebind, hgrants, hreplay]

/-- What the walk needs to know of a prepared block. -/
theorem CandidatePrepared.blockOf {c : ChainContext} {prior : ChainState} {bytes : Bytes}
    {b : Block} {flags : CandidateFlags} {candidate : ChainState}
    (h : CandidatePrepared c prior bytes true b flags candidate) (past : List Bytes) :
    BlockOf c prior.publicationActivationHeight bytes
      (candidateEnv c prior (some past) b flags) := by
  obtain ⟨id, -, hid, -⟩ := h.next_state
  refine ⟨rfl, ⟨id, hid⟩, rfl, fun tx htx htype hactive => ?_⟩
  rw [historyTransactions_singleton h.decode] at htx
  exact (scanBody_lifecycle h.scan).2 tx htx htype hactive

/-- Inherited components are followed as those of the prior state are. -/
theorem SearchFollows.inherit {c : ChainContext} {prior candidate : ChainState} {m n : ℕ}
    {w : SearchState} (h : SearchFollows c prior.lifecycle m n w)
    (hinherit : ComponentsOf prior candidate) : SearchFollows c candidate.lifecycle m n w := by
  obtain ⟨grants, replays, hlifecycle⟩ := hinherit.lifecycle
  obtain ⟨grants', replays', hhistorical⟩ := h.historical
  exact ⟨⟨grants', replays', by rw [hhistorical, hlifecycle]; rfl⟩, h.valid, h.room, h.eligible⟩

/-- The walk over an accepted history of lifecycle transactions follows its state. -/
theorem Reaches.search_follows {c : ChainContext} {blocks : List Bytes} {s : ChainState}
    (h : Reaches c blocks s)
    (hlifecycle : ∀ tx ∈ historyTransactions blocks, tx.type.isLifecycle = true)
    (k : SearchKey) (m n : ℕ) :
    Ends (SearchExit.FoundIfTotal c) (SearchFollows c s.lifecycle m n)
      (blocks.foldlM (searchBlock c s.publicationActivationHeight k)
        (searchInitial c ((historyTransactions blocks).length + n)
          ((grantsOf (historyTransactions blocks)).length + m))) := by
  refine h.invariant (P := fun blocks s =>
    (∀ tx ∈ historyTransactions blocks, tx.type.isLifecycle = true) → ∀ m n,
      Ends (SearchExit.FoundIfTotal c) (SearchFollows c s.lifecycle m n)
        (blocks.foldlM (searchBlock c s.publicationActivationHeight k)
          (searchInitial c ((historyTransactions blocks).length + n)
            ((grantsOf (historyTransactions blocks)).length + m)))) ?_ ?_ hlifecycle m n
  · intro s hs _ m n
    obtain ⟨-, activation, -, rfl⟩ := chainInitialize_eq_ok hs
    rw [show historyTransactions [] = [] from rfl]
    simp only [grantsOf, List.flatMap_nil, List.length_nil, Nat.zero_add]
    exact searchInitial_follows c activation n m
  · intro past s bytes b flags candidate s' hs hpast hprepared happlied hlifecycle m n
    obtain ⟨id, next, -, -, hworked, htip, hinherit⟩ := hprepared.next_state
    have hactivation : s'.publicationActivationHeight = s.publicationActivationHeight := by
      rw [(htip.trans happlied.sameTip).activation, hworked.activation]
    have hbody := historyTransactions_singleton hprepared.decode
    have hlength := length_decodedTransactions (Block.decode_transactions hprepared.decode)
    rw [historyTransactions_append, hbody] at hlifecycle ⊢
    have hroom := (hprepared.room (some past)).mono
      ((length_grantsOf_le _).trans hlength.le) le_rfl
    have hsum : (historyTransactions past ++ decodedTransactions b.transactions).length + n =
        (historyTransactions past).length + (b.transactions.length + n) := by
      rw [List.length_append, hlength]
      omega
    have hgrants : (grantsOf (historyTransactions past ++
          decodedTransactions b.transactions)).length + m =
        (grantsOf (historyTransactions past)).length +
          ((grantsOf (decodedTransactions b.transactions)).length + m) := by
      simp only [grantsOf, List.flatMap_append, List.length_append]
      omega
    rw [hactivation, hsum, hgrants, List.foldlM_append]
    refine (hpast (fun tx htx => hlifecycle tx (List.mem_append_left _ htx)) _ _).bind
      fun w hw => ?_
    simp only [List.foldlM_cons, List.foldlM_nil, bind_pure, searchBlock, hprepared.decode]
    refine happlied.search_follows (hprepared.blockOf past) (fun tx htx => ?_) hroom 0
      (hw.inherit hinherit)
    exact ⟨hbody ▸ htx, hlifecycle tx (List.mem_append_right _ htx)⟩

/-- With state alone a history of lifecycle transactions is validated to its end. -/
theorem Reaches.stateRun_lifecycle {c : ChainContext} {blocks : List Bytes} {s : ChainState}
    (h : Reaches c blocks s)
    (hlifecycle : ∀ tx ∈ historyTransactions blocks, tx.type.isLifecycle = true) :
    ∃ initial t, chainInitialize c = .ok initial ∧
      PastRun.run (stateStep c) [] initial blocks = .ok t ∧ t.content = s.content := by
  obtain ⟨initial, hinit, -⟩ := id h
  have hempty : Reaches c [] initial := ⟨initial, hinit, .nil⟩
  obtain ⟨t, ht, hcontent⟩ := (hempty.stateRun rfl h []).1
    (checkableFrom_of_lifecycle hlifecycle _ _)
  exact ⟨initial, t, hinit, ht, hcontent⟩

/-- What a walk that has ended reports. -/
def searchReport : Except SearchExit SearchState →
    Except DataStatus (Option (RecordMatch × ChainCursor))
  | .ok _ => .ok none
  | .error (.found found position) => .ok (some (found, position))
  | .error (.failed status) => .error status

/-- A search of an accepted history of lifecycle transactions is its walk. -/
theorem recordSearch_eq_walk {c : ChainContext} {blocks : List Bytes} {s : ChainState}
    (h : Accepts c blocks s) (hpolicy : c.powPolicy.isSome)
    (hlifecycle : ∀ tx ∈ historyTransactions blocks, tx.type.isLifecycle = true)
    (k : SearchKey) : recordSearch c blocks k = searchReport
      (blocks.foldlM (searchBlock c s.publicationActivationHeight k)
        (searchInitial c (historyTransactions blocks).length
          (grantsOf (historyTransactions blocks)).length)) := by
  obtain ⟨hne, hreach⟩ := accepts_iff.mp h
  obtain ⟨initial, t, hinit, hrun, hcontent⟩ := hreach.stateRun_lifecycle hlifecycle
  have hactivation : t.publicationActivationHeight = s.publicationActivationHeight := by
    obtain ⟨grants, replays, rfl⟩ := content_eq_iff.mp hcontent
    rfl
  have hguard : ¬(c.powPolicy.isNone = true ∨ blocks = []) := by
    rintro (hnone | hempty)
    · simp [Option.isNone_iff_eq_none.mp hnone] at hpolicy
    · exact hne hempty
  simp only [recordSearch, if_neg hguard, hinit, hrun, hactivation,
    countTransactions_eq fun bytes hbytes => hreach.decode_of_mem hbytes]
  rfl

/-- Every search of an accepted history of lifecycle transactions has a result. -/
theorem recordSearch_of_lifecycle {c : ChainContext} (htotal : c.hashProvider.Total)
    {blocks : List Bytes} {s : ChainState} (h : Accepts c blocks s)
    (hpolicy : c.powPolicy.isSome)
    (hlifecycle : ∀ tx ∈ historyTransactions blocks, tx.type.isLifecycle = true)
    (k : SearchKey) : ∃ result, recordSearch c blocks k = .ok result := by
  have hwalk := (accepts_iff.mp h).2.search_follows hlifecycle k 0 0
  rw [Nat.add_zero, Nat.add_zero] at hwalk
  rw [recordSearch_eq_walk h hpolicy hlifecycle k]
  cases hresult : blocks.foldlM (searchBlock c s.publicationActivationHeight k)
      (searchInitial c (historyTransactions blocks).length
        (grantsOf (historyTransactions blocks)).length) with
  | ok w => exact ⟨none, rfl⟩
  | error e =>
      rw [hresult] at hwalk
      cases e with
      | failed status => exact (hwalk htotal).elim
      | found found position => exact ⟨some (found, position), rfl⟩

theorem blockDecode_of_blockId {bytes : Bytes} {provider : HashProvider}
    {id : Octets 32} (h : chainBlockId bytes provider = .ok id) :
    ∃ b, blockDecode bytes = .ok b := by
  simp only [chainBlockId, blockValidateStructure] at h
  cases hdecode : blockDecode bytes with
  | error status => simp [hdecode] at h
  | ok b => exact ⟨b, rfl⟩

/-- A loop of the cursor check whose blocks are valid keeps its verdict or finds the cursor. -/
theorem cursorLoop_of_run {c : ChainContext} (cursor : ChainCursor) {blocks : List Bytes}
    {s t : ChainState} {seen : List Bytes}
    (hrun : PastRun.run (stateStep c) seen s blocks = .ok t)
    (hids : ∀ bytes ∈ blocks, ∃ id, chainBlockId bytes c.hashProvider = .ok id)
    (result : CursorResult) :
    cursorLoop c cursor s result blocks = result ∨
      cursorLoop c cursor s result blocks = .valid := by
  induction blocks generalizing s seen result with
  | nil => exact .inl rfl
  | cons bytes rest ih =>
      obtain ⟨⟨id, hid⟩, hrest⟩ := List.forall_mem_cons.mp hids
      obtain ⟨b, hdecode⟩ := blockDecode_of_blockId hid
      simp only [PastRun.run] at hrun
      split at hrun
      · simp at hrun
      next s' hstep =>
      have hstep : stateStep c [] s bytes = .ok s' := hstep
      simp only [cursorLoop, hstep, hdecode, hid]
      split
      · rcases ih hrun hrest (if id = cursor.blockId ∧
            cursor.transactionPosition < b.header.transactionCount then .valid else result)
          with hkeep | hvalid
        · rw [hkeep]
          split
          · exact .inr rfl
          · exact .inl rfl
        · exact .inr hvalid
      · exact ih hrun hrest result

/-! ## Queries that answer -/

/-- A verdict about the cursor. -/
def CursorResult.answers : CursorResult → Bool
  | .valid | .detached | .malformed => true
  | .unavailable | .provider => false

/-- A record, the end, or a verdict about the cursor. -/
def NextResult.answers : NextResult → Bool
  | .record _ _ | .atEnd | .detached | .malformed => true
  | .unavailable | .provider | .capacity => false

/-- A record or the end. -/
def FirstResult.answers : FirstResult → Bool
  | .record _ _ | .atEnd => true
  | .unavailable | .provider | .capacity => false

/-- Every record query on a history answers. -/
structure QueriesAnswer (c : ChainContext) (blocks : List Bytes) : Prop where
  first : (chainFirstRecord c blocks).answers = true
  next : ∀ cursor, (chainNextRecord c blocks cursor).answers = true
  lookup : ∀ key, ∃ found, chainLookupRecord c blocks key = .ok found
  cursor : ∀ cursor, (chainCursorValidate c blocks cursor).answers = true

theorem queriesAnswer_of_lifecycle {c : ChainContext} (htotal : c.hashProvider.Total)
    {blocks : List Bytes} {s : ChainState} (h : Accepts c blocks s)
    (hpolicy : c.powPolicy.isSome)
    (hlifecycle : ∀ tx ∈ historyTransactions blocks, tx.type.isLifecycle = true) :
    QueriesAnswer c blocks := by
  have hsearch := recordSearch_of_lifecycle htotal h hpolicy hlifecycle
  have hcursor (cursor : ChainCursor) : (chainCursorValidate c blocks cursor).answers = true := by
    obtain ⟨hne, hreach⟩ := accepts_iff.mp h
    obtain ⟨initial, t, hinit, hrun, -⟩ := hreach.stateRun_lifecycle hlifecycle
    simp only [chainCursorValidate, hinit]
    split
    · rfl
    split
    · next hguard =>
        rcases hguard with hnone | hempty
        · simp [Option.isNone_iff_eq_none.mp hnone] at hpolicy
        · exact absurd hempty hne
    · rcases cursorLoop_of_run cursor hrun (fun bytes hbytes => hreach.blockId_of_mem hbytes)
        .detached with hloop | hloop <;>
      rw [hloop] <;> rfl
  refine ⟨?_, fun cursor => ?_, fun key => ?_, hcursor⟩
  · obtain ⟨result, hresult⟩ := hsearch {}
    rcases result with _ | ⟨found, position⟩ <;>
      simp [chainFirstRecord, hresult, FirstResult.answers]
  · obtain ⟨result, hresult⟩ := hsearch { after := some cursor }
    have hverdict := hcursor cursor
    simp only [chainNextRecord]
    cases hvalidate : chainCursorValidate c blocks cursor <;>
      simp only [hvalidate, CursorResult.answers, Bool.false_eq_true] at hverdict
    · rcases result with _ | ⟨found, position⟩ <;> simp [hresult, NextResult.answers]
    · rfl
    · rfl
  · obtain ⟨result, hresult⟩ := hsearch { key := some key }
    rcases result with _ | ⟨found, position⟩ <;> simp [chainLookupRecord, hresult]

/-! ## Other transactions -/

/-- The walk was left with a failure. -/
def SearchExit.IsFailed : SearchExit → Prop
  | .found _ _ => False
  | .failed _ => True

/-- A round at or before the cursor does not return a record. -/
theorem searchTransaction_unselected {c : ChainContext} {activation : UInt64} {k : SearchKey}
    {bytes : Bytes} {height : UInt64} {entry : Bytes × ℕ}
    (h : ∀ id, k.selects id height entry.2 = false) (w : SearchState) :
    Ends SearchExit.IsFailed (fun _ => True)
      (searchTransaction c activation k bytes height w entry) := by
  have hadvance (tx : Transaction) (w : SearchState) :
      Ends SearchExit.IsFailed (fun _ => True) (advanceHistorical c tx w) := by
    simp only [advanceHistorical]
    split
    · split
      · trivial
      · split <;> trivial
    · trivial
  simp only [searchTransaction]
  split
  · trivial
  next tx hdecode =>
  split
  · refine Ends.bind (P := fun _ => True) ?_ fun w' _ => ?_
    · simp only [observePublication, h, Bool.false_eq_true, ↓reduceIte]
      split
      · trivial
      · trivial
      · split
        · trivial
        · split <;> trivial
      · trivial
    · split
      · trivial
      · exact hadvance tx w'
  · exact hadvance tx w

/-- The lifecycle component refuses every other transaction. -/
theorem lifecycleApplyTransaction_of_not_lifecycle {tx : Transaction}
    (htype : tx.type.isLifecycle = false) (s : LifecycleState) (roots : List (Octets 32))
    (provider : HashProvider) :
    lifecycleApplyTransaction s tx roots provider = (.malformed, s) := by
  unfold lifecycleApplyTransaction
  split <;> rename_i hcase
  all_goals first
    | rfl
    | simp [hcase, TransactionType.isLifecycle] at htype

/-- The walk fails at a transaction that is not of the lifecycle. -/
theorem searchTransaction_fails {c : ChainContext} {activation : UInt64} {k : SearchKey}
    {bytes : Bytes} {height : UInt64} {t : Bytes} {j : ℕ} {tx : Transaction}
    (hdecode : transactionDecode t = .ok tx) (htype : tx.type.isLifecycle = false)
    (w : SearchState) :
    searchTransaction c activation k bytes height w (t, j) = .error (.failed .providerError) := by
  have hpublication : tx.type ≠ .publication := fun heq => by
    simp [heq, TransactionType.isLifecycle] at htype
  simp only [searchTransaction, hdecode, if_neg hpublication, advanceHistorical,
    lifecycleApplyTransaction_of_not_lifecycle htype]

/-- The cursor at a transaction of a history. -/
structure CursorAt (c : ChainContext) (past : List Bytes) (bytes : Bytes) (b : Block)
    (pre : List Bytes) (cursor : ChainCursor) : Prop where
  version : cursor.version = chainCursorVersion
  decode : blockDecode bytes = .ok b
  height : b.header.height = cursor.height
  above : ∀ other ∈ past, ∀ b', blockDecode other = .ok b' → b'.header.height < cursor.height
  blockId : chainBlockId bytes c.hashProvider = .ok cursor.blockId
  position : cursor.transactionPosition.toNat = pre.length
  within : cursor.transactionPosition < b.header.transactionCount

/-- Every transaction of an accepted history has a cursor. -/
theorem Reaches.cursorAt {c : ChainContext} {past rest : List Bytes} {bytes : Bytes}
    {s : ChainState} (h : Reaches c (past ++ bytes :: rest) s) {b : Block}
    (hdecode : blockDecode bytes = .ok b) {pre post : List Bytes} {t : Bytes}
    (hblock : b.transactions = pre ++ t :: post) :
    ∃ cursor, CursorAt c past bytes b pre cursor := by
  have hmem : bytes ∈ past ++ bytes :: rest := by simp
  obtain ⟨id, hid⟩ := h.blockId_of_mem hmem
  have hlength : pre.length < b.header.transactionCount.toNat := by
    rw [← b.length_transactions, hblock]
    simp
  have hposition : (UInt32.ofNat pre.length).toNat = pre.length := by
    have := b.header.transactionCount.toNat_lt
    simp only [UInt32.toNat_ofNat']
    omega
  refine ⟨⟨chainCursorVersion, b.header.height, id, UInt32.ofNat pre.length⟩, rfl, hdecode, rfl,
    fun other hother b' hdecode' => ?_, hid, hposition, ?_⟩
  · obtain ⟨before, after, rfl⟩ := List.append_of_mem hother
    have hbefore : Reaches c (before ++ other :: (after ++ bytes :: rest)) s := by simpa using h
    rw [UInt64.lt_iff_toNat_lt, h.height_at hdecode, hbefore.height_at hdecode']
    simp
  · rw [UInt32.lt_iff_toNat_lt, hposition]
    exact hlength

/-- A search past a transaction that is not of the lifecycle fails. -/
theorem CursorAt.search_fails {c : ChainContext} {past : List Bytes} {bytes : Bytes}
    {b : Block} {pre post : List Bytes} {t : Bytes} {tx : Transaction} {cursor : ChainCursor}
    (h : CursorAt c past bytes b pre cursor) (rest : List Bytes)
    (hblock : b.transactions = pre ++ t :: post)
    (hdecode : transactionDecode t = .ok tx) (htype : tx.type.isLifecycle = false)
    (activation : UInt64) (w : SearchState) :
    ∃ status, (past ++ bytes :: rest).foldlM
      (searchBlock c activation { after := some cursor }) w = .error (.failed status) := by
  have hbefore : Ends SearchExit.IsFailed (fun _ => True)
      (past.foldlM (searchBlock c activation { after := some cursor }) w) := by
    refine Ends.foldlM (I := fun _ _ => True) trivial fun before other after w hsplit _ => ?_
    simp only [searchBlock]
    split
    · trivial
    next b' hdecode' =>
    have hlow := h.above other (by simp [hsplit]) b' hdecode'
    refine Ends.foldlM (I := fun _ _ => True) trivial fun _ entry _ w _ _ => ?_
    exact searchTransaction_unselected (fun id => by
      simp [SearchKey.selects, UInt64.lt_asymm hlow, UInt64.ne_of_lt hlow]) w
  have hwhole : Ends SearchExit.IsFailed (fun _ => False)
      ((past ++ bytes :: rest).foldlM (searchBlock c activation { after := some cursor }) w) := by
    rw [List.foldlM_append]
    refine hbefore.bind fun w _ => ?_
    rw [List.foldlM_cons]
    refine Ends.bind (P := fun _ => False) ?_ fun _ hfalse => hfalse.elim
    simp only [searchBlock, h.decode, hblock, List.zipIdx_append, List.zipIdx_cons]
    rw [List.foldlM_append]
    refine Ends.bind (P := fun _ => True) ?_ fun w _ => ?_
    · refine Ends.foldlM (I := fun _ _ => True) trivial fun before entry after w hsplit _ => ?_
      have hlow := List.snd_lt_of_mem_zipIdx (x := entry) (l := pre) (k := 0) (by simp [hsplit])
      refine searchTransaction_unselected (fun id => ?_) w
      have hposition := h.position
      simp [SearchKey.selects, h.height]
      omega
    · rw [List.foldlM_cons, searchTransaction_fails hdecode htype]
      trivial
  obtain ⟨e, he, hfailed⟩ := hwhole.exists_exit
  cases e with
  | found found position => exact hfailed.elim
  | failed status => exact ⟨status, he⟩

/-- The cursor check does not lose a cursor it has found. -/
theorem cursorLoop_of_valid {c : ChainContext} {cursor : ChainCursor} (blocks : List Bytes)
    (s : ChainState) : cursorLoop c cursor s .valid blocks ≠ .detached ∧
      cursorLoop c cursor s .valid blocks ≠ .malformed := by
  induction blocks generalizing s with
  | nil => simp [cursorLoop]
  | cons bytes rest ih =>
      simp only [cursorLoop]
      split
      · split <;> simp
      split
      · simp
      split
      · split
        · simp
        · simpa using ih _
      · exact ih _

/-- The cursor check finds a cursor of the history unless validation fails. -/
theorem CursorAt.not_detached {c : ChainContext} {past blocks : List Bytes} {bytes : Bytes}
    {b : Block} {pre : List Bytes} {cursor : ChainCursor} (h : CursorAt c past bytes b pre cursor)
    (hmem : bytes ∈ blocks) (s : ChainState) (result : CursorResult) :
    cursorLoop c cursor s result blocks ≠ .detached ∧
      cursorLoop c cursor s result blocks ≠ .malformed := by
  induction blocks generalizing s result with
  | nil => simp at hmem
  | cons other rest ih =>
      simp only [cursorLoop]
      split
      · split <;> simp
      rcases List.mem_cons.mp hmem with rfl | hmem
      · simp only [h.decode, h.height, h.blockId, h.within, and_self, ↓reduceIte]
        exact cursorLoop_of_valid rest _
      split
      · simp
      split
      · split
        · simp
        · exact ih hmem _ _
      · exact ih hmem _ _

/-- Where every query answers, the cursors of the history are valid. -/
theorem CursorAt.validate {c : ChainContext} {past blocks : List Bytes} {bytes : Bytes}
    {b : Block} {pre : List Bytes} {cursor : ChainCursor} (h : CursorAt c past bytes b pre cursor)
    (hmem : bytes ∈ blocks) (hanswer : QueriesAnswer c blocks) :
    chainCursorValidate c blocks cursor = .valid := by
  have hcursor := hanswer.cursor cursor
  have hverdict : chainCursorValidate c blocks cursor ≠ .detached ∧
      chainCursorValidate c blocks cursor ≠ .malformed := by
    simp only [chainCursorValidate, h.version, ne_eq, not_true_eq_false, ↓reduceIte]
    split
    · simp
    split
    · simp
    · exact h.not_detached hmem _ _
  cases hresult : chainCursorValidate c blocks cursor with
  | valid => rfl
  | detached => exact absurd hresult hverdict.1
  | malformed => exact absurd hresult hverdict.2
  | unavailable | provider => simp [hresult, CursorResult.answers] at hcursor

/-- Where every query answers, the context has a proof-of-work policy and every
transaction is of the lifecycle. -/
theorem QueriesAnswer.lifecycle {c : ChainContext} {blocks : List Bytes} {s : ChainState}
    (hanswer : QueriesAnswer c blocks) (hreach : Reaches c blocks s) :
    c.powPolicy.isSome ∧ ∀ tx ∈ historyTransactions blocks, tx.type.isLifecycle = true := by
  have hpolicy : c.powPolicy.isSome := by
    have hfirst := hanswer.first
    cases hpolicy : c.powPolicy with
    | some policy => rfl
    | none => simp [chainFirstRecord, recordSearch, hpolicy, FirstResult.answers] at hfirst
  refine ⟨hpolicy, fun tx htx => ?_⟩
  by_contra htype
  have htype : tx.type.isLifecycle = false := by simpa using htype
  -- The query for the record after this transaction has to pass over it.
  obtain ⟨bytes, hbytes, htx⟩ := List.mem_flatMap.mp htx
  obtain ⟨t, ht, hdecode⟩ := mem_decodedTransactions.mp htx
  obtain ⟨past, rest, rfl⟩ := List.append_of_mem hbytes
  obtain ⟨b, hblock⟩ := hreach.decode_of_mem hbytes
  rw [blockTransactions_of_decode hblock] at ht
  obtain ⟨pre, post, hsplit⟩ := List.append_of_mem ht
  obtain ⟨cursor, hcursor⟩ := hreach.cursorAt hblock hsplit
  have hsearch : ∃ status, recordSearch c (past ++ bytes :: rest) { after := some cursor } =
      .error status := by
    simp only [recordSearch]
    split
    · exact ⟨_, rfl⟩
    split
    · exact ⟨_, rfl⟩
    split
    · split <;> exact ⟨_, rfl⟩
    next current _ =>
    split
    · exact ⟨_, rfl⟩
    next total grants _ =>
    obtain ⟨status, hfails⟩ := hcursor.search_fails rest hsplit hdecode htype
      current.publicationActivationHeight (searchInitial c total grants)
    exact ⟨status, by rw [hfails]⟩
  obtain ⟨status, hsearch⟩ := hsearch
  have hnext := hanswer.next cursor
  simp only [chainNextRecord, hcursor.validate hbytes hanswer, hsearch] at hnext
  cases status <;> simp [NextResult.answers] at hnext

/-- The record queries answer on an accepted history exactly when its context has a
proof-of-work policy and its transactions are all of the lifecycle. -/
theorem queriesAnswer_iff {c : ChainContext} (htotal : c.hashProvider.Total)
    {blocks : List Bytes} {s : ChainState} (h : Accepts c blocks s) :
    QueriesAnswer c blocks ↔
      c.powPolicy.isSome ∧ ∀ tx ∈ historyTransactions blocks, tx.type.isLifecycle = true := by
  obtain ⟨-, hreach⟩ := accepts_iff.mp h
  constructor
  · exact fun hanswer => hanswer.lifecycle hreach
  · rintro ⟨hpolicy, hlifecycle⟩
    exact queriesAnswer_of_lifecycle htotal h hpolicy hlifecycle

end

section Sample

attribute [local instance] Sample.primitives

open Sample

theorem sample_provider_total : context.hashProvider.Total :=
  ⟨hash, rfl, fun _ _ => ⟨_, rfl⟩⟩

/-- The first query on a history with a compensation destination fails. -/
theorem sample_query_unavailable :
    ¬ ∀ (c : ChainContext), c.hashProvider.Total → ∀ (blocks : List Bytes) (s : ChainState),
      Accepts c blocks s → QueriesAnswer c blocks := by
  intro h
  obtain ⟨s, hs⟩ := accepts_history
  have hfirst := (h context sample_provider_total history s hs).first
  revert hfirst
  decide +kernel

theorem sample_queries_answer :
    context.hashProvider.Total ∧ (∃ s, Accepts context [genesis, empty] s) ∧
      QueriesAnswer context [genesis, empty] := by
  obtain ⟨-, s, hs⟩ := accepts_front
  have hlifecycle : ∀ tx ∈ historyTransactions [genesis, empty], tx.type.isLifecycle = true := by
    decide +kernel
  exact ⟨sample_provider_total, ⟨s, hs⟩,
    (queriesAnswer_iff sample_provider_total hs).mpr ⟨rfl, hlifecycle⟩⟩

end Sample

end StnChain
