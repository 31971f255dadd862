import StnChain.Mining.Capacity
import StnChain.Pending.Identifiers

/-!
# Submissions to the pool

SUBMIT_TRANSACTION and SUBMIT_SHARE of `stn_mining.c`.  A reply that accepts a transaction
carries its identifier; one that knows it need not, since some branches of the admission
leave a waiting transaction to `stn_pending_insert`, which does not write the identifier.
-/

namespace StnChain

section

variable [Primitives] {σ : Type}

/-! ## The identifier in a submission reply -/

/-- A submission reply that accepts or knows the transaction carries its identifier. -/
def RpcReply.Identifies (r : RpcReply) (provider : HashProvider) (bytes : Bytes) : Prop :=
  r.code = some .ok → wireRead r.memory 2 2 = 0 ∨ wireRead r.memory 2 2 = 1 →
    transactionId bytes provider = .ok (octetsAt r.memory 4 32)

variable {memory : Bytes} {capacity : ℕ}

omit [Primitives] in
/-- The zeros, the version and the result of a submission reply. -/
theorem writeAll_result (memory : Bytes) (result : ℕ) :
    Buffer.writeAll memory
        [(0, List.replicate 36 0), (0, wireWrite 2 1), (2, wireWrite 2 result)] =
      wireWrite 2 1 ++ (wireWrite 2 result ++ (List.replicate 32 0 ++ memory.drop 36)) := by
  have hzeros : Buffer.overwrite memory 0 (List.replicate 36 0) =
      List.replicate 2 0 ++ (List.replicate 2 0 ++ (List.replicate 32 0 ++ memory.drop 36)) := by
    simp [Buffer.overwrite, List.replicate]
  have hversion := Buffer.overwrite_part [] (List.replicate 2 0)
    (List.replicate 2 0 ++ (List.replicate 32 0 ++ memory.drop 36)) (wireWrite 2 1) (by simp)
  have hresult := Buffer.overwrite_part (wireWrite 2 1) (List.replicate 2 0)
    (List.replicate 32 0 ++ memory.drop 36) (wireWrite 2 result) (by simp)
  simp only [List.nil_append, List.length_nil] at hversion
  rw [length_wireWrite] at hresult
  simp only [Buffer.writeAll, List.foldl_cons, List.foldl_nil]
  rw [hzeros, hversion, hresult]

omit [Primitives] in
/-- The identifier written behind them. -/
theorem writeAll_named (memory : Bytes) (result : ℕ) (id : Octets 32) :
    Buffer.writeAll memory
        ([(0, List.replicate 36 0), (0, wireWrite 2 1), (2, wireWrite 2 result)] ++
          [(4, octetBytes id)]) =
      wireWrite 2 1 ++ (wireWrite 2 result ++ (octetBytes id ++ memory.drop 36)) := by
  have hid := Buffer.overwrite_part (wireWrite 2 1 ++ wireWrite 2 result) (List.replicate 32 0)
    (memory.drop 36) (octetBytes id) (by simp)
  simp only [List.append_assoc, List.length_append, length_wireWrite] at hid
  rw [Buffer.writeAll_append, writeAll_result]
  exact hid

omit [Primitives] in
theorem wireRead_result {result : ℕ} (hresult : result < 256 ^ 2) (rest : Bytes) :
    wireRead (wireWrite 2 1 ++ (wireWrite 2 result ++ rest)) 2 2 = result := by
  rw [wireRead_append_right (by simp), wireRead_append_left (by simp)]
  simp only [length_wireWrite, Nat.sub_self]
  exact wireRead_wireWrite hresult

omit [Primitives] in
theorem octetsAt_named (result : ℕ) (id : Octets 32) (rest : Bytes) :
    octetsAt (wireWrite 2 1 ++ (wireWrite 2 result ++ (octetBytes id ++ rest))) 4 32 = id := by
  rw [octetsAt_append_right (by simp), octetsAt_append_right (by simp),
    octetsAt_append_left (by simp)]
  simp

omit [Primitives] in
theorem submissionCode_lt (result : PendingResult) : submissionCode result < 256 ^ 2 := by
  cases result <;> decide

omit [Primitives] in
/-- The values 0 and 1 stand for a transaction that is accepted or known. -/
theorem submissionCode_known_iff (result : PendingResult) :
    (submissionCode result = 0 ∨ submissionCode result = 1) ↔
      result = .accepted ∨ result = .duplicate := by
  cases result <;> decide

variable {s : MiningService σ} {v : StorageView} {q : RpcMessage}

/-- The reply to a submission carries the identifier as the admission reports it. -/
theorem submitTransaction_identifies_iff {pool : PendingPool} (hroom : ¬capacity < 36)
    (hlength : ¬q.payload.length > txMaxSize) (hpending : s.pending = some pool) :
    (submitTransaction s v q memory capacity).reply.Identifies s.chain.hashProvider q.payload ↔
      (sharePendingAdmit pool q.payload s.intelligence v s.chain.hashProvider).Identifies
        s.chain.hashProvider q.payload s.stackId := by
  simp only [submitTransaction, if_neg hroom, if_neg hlength, miningAdmit, hpending,
    RpcReply.answer]
  generalize sharePendingAdmit pool q.payload s.intelligence v s.chain.hashProvider = a
  by_cases hknown : a.result = .accepted ∨ a.result = .duplicate
  · rw [if_pos hknown, writeAll_named]
    simp only [RpcReply.Identifies, Admission.Identifies, octetsAt_named,
      wireRead_result (submissionCode_lt a.result), submissionCode_known_iff, forall_const]
  · rw [if_neg hknown, List.append_nil, writeAll_result]
    simp only [RpcReply.Identifies, Admission.Identifies,
      wireRead_result (submissionCode_lt a.result), submissionCode_known_iff, hknown,
      false_implies, implies_true]

/-- A submission reply carries the identifier of what it accepts or knows exactly when no
waiting transaction that its branch leaves to the insertion differs from what the buffer
of the identifier held. -/
theorem submission_identified_iff (s : MiningService σ) (v : StorageView) (q : RpcMessage)
    (memory : Bytes) (capacity : ℕ) :
    (submitTransaction s v q memory capacity).reply.Identifies s.chain.hashProvider q.payload ↔
      (36 ≤ capacity → q.payload.length ≤ txMaxSize → ∀ pool, s.pending = some pool →
        ∀ prior e, insertionHeld pool v s.intelligence q.payload s.stackId = some prior →
          pendingEntry q.payload s.chain.hashProvider = .ok e → pool.has e.id = true →
            e.id = prior) := by
  by_cases hroom : capacity < 36
  · simp [submitTransaction, hroom, MiningOutcome.plain, RpcReply.plain, RpcReply.Identifies]
  by_cases hlength : q.payload.length > txMaxSize
  · simp [submitTransaction, hroom, hlength, MiningOutcome.plain, RpcReply.plain,
      RpcReply.Identifies]
  simp only [not_lt.mp hroom, not_lt.mp hlength, forall_const]
  cases hpending : s.pending with
  | none =>
      simp only [submitTransaction, if_neg hroom, if_neg hlength, miningAdmit, hpending,
        RpcReply.answer, reduceCtorEq, or_self, if_false, List.append_nil, writeAll_result,
        RpcReply.Identifies, wireRead_result (submissionCode_lt .unavailable),
        submissionCode_known_iff, false_implies, implies_true]
  | some pool =>
      rw [submitTransaction_identifies_iff hroom hlength hpending,
        sharePendingAdmit_reports.identifies_iff]
      constructor
      · intro h pool' hpool'
        obtain rfl := Option.some.inj hpool'
        exact h
      · intro h
        exact h pool rfl

/-! ## Pools that lose what is accepted -/

/-- Nothing but entries that some blocks include left the pool, and its byte total followed. -/
structure PendingPool.PrunedOf (provider : HashProvider) (blocks : List Bytes)
    (pool pool' : PendingPool) : Prop where
  sublist : pool'.entries.Sublist pool.entries
  included : ∀ e ∈ pool.entries, e ∉ pool'.entries →
    ∃ t ∈ historyOctets blocks, transactionId t provider = .ok e.id
  bytes : pool'.bytes = (pool'.entries.map fun e => e.transaction.length).sum

/-- A walk over blocks that succeeds has decoded them. -/
theorem decode_of_markBlocks {judge : Bytes → Except DataStatus (PendingEntry → Bool)}
    {entries : List PendingEntry} {blocks : List Bytes} {mask : List Bool}
    (h : markBlocks judge entries blocks = .ok mask) :
    ∀ bytes ∈ blocks, ∃ b, blockDecode bytes = .ok b := by
  unfold markBlocks at h
  generalize (entries.map fun _ => false) = before at h
  induction blocks generalizing before with
  | nil => simp
  | cons bytes blocks ih =>
      rw [List.foldlM_cons, bind_eq_ok_iff] at h
      obtain ⟨after, hfirst, hrest⟩ := h
      intro bytes' hbytes'
      rcases List.mem_cons.mp hbytes' with rfl | hbytes'
      · split at hfirst
        · cases hfirst
        · next b hdecode => exact ⟨b, hdecode⟩
      · exact ih after hrest bytes' hbytes'

/-- The removal of the committed entries is a pruning of included ones. -/
theorem PendingPool.Sound.prunedOf {provider : HashProvider} {pool : PendingPool}
    (hpool : pool.Sound provider) {blocks : List Bytes} {mask : List Bool}
    (h : pool.committedInclusions provider blocks = .ok mask) :
    pool.PrunedOf provider blocks (pool.prune mask) where
  sublist := TalliedTable.Layout.sweep_sublist _ _ _
  bytes := (hpool.prune mask).tally
  included := by
    simp only [committedInclusions] at h
    split at h
    · cases h
    have hdecodes := decode_of_markBlocks h
    rw [markBlocks_of_decode hdecodes, Marking.scan_eq_ok_iff] at h
    obtain ⟨-, marked, rfl, hmarked⟩ := h
    intro e he hgone
    have hentries : (pool.prune (pool.entries.map marked)).entries =
        pool.entries.filter fun x => !marked x :=
      TalliedTable.Layout.sweep_map _ _ _
    have hmark : marked e = true := by
      by_contra hkept
      apply hgone
      rw [hentries, List.mem_filter]
      exact ⟨he, by simpa using hkept⟩
    obtain ⟨t, ht, judge, hjudge, hselected⟩ := (hmarked e).mp hmark
    refine ⟨t, ht, ?_⟩
    simp only [committed] at hjudge
    split at hjudge
    · cases hjudge
    split at hjudge
    · cases hjudge
    next id hid =>
    obtain rfl := Except.ok.inj hjudge
    have hfound := of_decide_eq_true hselected
    have hsame := List.find?_some hfound
    rw [hid, of_decide_eq_true hsame]

/-! ## A share with its issuance -/

/-- A transaction waits in the pool under its identifier. -/
def PendingPool.HoldsTransaction (pool : PendingPool) (provider : HashProvider) (bytes : Bytes) :
    Prop :=
  ∃ id, transactionId bytes provider = .ok id ∧ pool.Holds id

/-- The wallet of a miner is named by the accepted state or by a waiting transaction. -/
def PendingPool.NamesWallet (pool : PendingPool) (compensation : CompensationState)
    (miner wallet : Address) : Prop :=
  compensationStateLookup compensation miner = .ok wallet ∨
    ∃ e ∈ pool.entries, ∃ tx d, transactionDecode e.transaction = .ok tx ∧
      tx.type = .compensationDestination ∧ compensationDestinationDecode tx.record = .ok d ∧
      d.miningIdentity.identifier = miner.identifier ∧ d.wallet = wallet

/-- The evidence of a share waits in the pool, and so does the issuance of a share's units
for it to the wallet of its miner. -/
def PendingPool.HoldsSharePair (pool : PendingPool) (provider : HashProvider)
    (compensation : CompensationState) (share : ShareEvidence) : Prop :=
  ∃ canonical evidence id wallet issuance,
    shareEncode share = .ok canonical ∧
    transactionEncode ⟨1, .shareEvidence, canonical⟩ (txHeaderSize + shareCanonicalSize) =
      .ok evidence ∧
    shareId share = .ok id ∧ wallet.type = .wallet ∧
    pool.NamesWallet compensation share.miner wallet ∧
    issuanceTransaction ⟨issuanceReasonShare, issuanceShareUnits, id, ⟨share.miner, wallet⟩⟩ =
      .ok issuance ∧
    pool.HoldsTransaction provider evidence ∧ pool.HoldsTransaction provider issuance

section Pair

variable {pool pool' : PendingPool} {c : Option ValidationContext} {v : StorageView}
  {provider : HashProvider} {share : ShareEvidence}

theorem PendingPool.Settles.subset {result : PendingResult} {id : Option (Octets 32)}
    (h : PendingPool.Settles provider pool result id pool') : pool.entries ⊆ pool'.entries := by
  rcases h with ⟨-, e, -, hplace, -⟩ | ⟨-, rfl⟩
  · unfold TalliedTable.Layout.place at hplace
    split at hplace
    · cases hplace
    split at hplace
    · cases hplace
    obtain rfl := (Prod.mk.inj hplace).2
    intro x hx
    exact SortedTable.mem_insert.mpr (.inr hx)
  · exact List.Subset.refl _

theorem PendingPool.HoldsTransaction.mono {bytes : Bytes}
    (h : pool.HoldsTransaction provider bytes) (hsub : pool.entries ⊆ pool'.entries) :
    pool'.HoldsTransaction provider bytes := by
  obtain ⟨id, hid, e, he, hkey⟩ := h
  exact ⟨id, hid, e, hsub he, hkey⟩

theorem PendingPool.NamesWallet.mono {compensation : CompensationState} {miner wallet : Address}
    (h : pool.NamesWallet compensation miner wallet) (hsub : pool.entries ⊆ pool'.entries) :
    pool'.NamesWallet compensation miner wallet := by
  rcases h with haccepted | ⟨e, he, hnamed⟩
  · exact .inl haccepted
  · exact .inr ⟨e, hsub he, hnamed⟩

/-- A scan that finds a wallet began with it or found it in a waiting transaction. -/
theorem pendingDestinations_found {identity wallet : Address} {entries : List PendingEntry}
    {selected : Option Address} (h : pendingDestinations identity entries selected = .ok wallet) :
    selected = some wallet ∨
      ∃ e ∈ entries, ∃ tx d, transactionDecode e.transaction = .ok tx ∧
        tx.type = .compensationDestination ∧ compensationDestinationDecode tx.record = .ok d ∧
        d.miningIdentity.identifier = identity.identifier ∧ d.wallet = wallet := by
  have hlater {e : PendingEntry} {entries : List PendingEntry} {p : PendingEntry → Prop}
      (hfound : ∃ x ∈ entries, p x) : ∃ x ∈ e :: entries, p x := by
    obtain ⟨x, hx, hp⟩ := hfound
    exact ⟨x, List.mem_cons_of_mem _ hx, hp⟩
  induction entries generalizing selected with
  | nil =>
      cases selected with
      | none => cases h
      | some first => exact .inl (congrArg some (Except.ok.inj h))
  | cons e entries ih =>
      simp only [pendingDestinations] at h
      split at h
      · cases h
      next tx hdecode =>
      split at h
      · exact (ih h).imp_right hlater
      next htype =>
      split at h
      · cases h
      next d hd =>
      split at h
      · exact (ih h).imp_right hlater
      next hidentity =>
      split at h
      · cases h
      split at h
      · cases h
      · rcases ih h with hselected | hfound
        · exact .inr ⟨e, List.mem_cons_self .., tx, d, hdecode, not_not.mp htype, hd,
            not_not.mp hidentity, Option.some.inj hselected⟩
        · exact .inr (hlater hfound)

theorem namesWallet_of_shareWallet {compensation : CompensationState} {miner wallet : Address}
    {waiting : Bool} (h : shareWallet pool compensation miner = .ok (wallet, waiting)) :
    pool.NamesWallet compensation miner wallet := by
  unfold shareWallet at h
  split at h
  · simp only [miningPendingCompensationLookup] at h
    split at h
    · cases h
    · cases hfound : pendingDestinations miner pool.entries none with
      | error status =>
          rw [hfound] at h
          cases h
      | ok found =>
          rw [hfound] at h
          obtain rfl := (Prod.mk.inj (Except.ok.inj h)).1
          rcases pendingDestinations_found hfound with hnone | hwaits
          · cases hnone
          · exact .inr hwaits
  · cases h
  · next hlookup =>
      obtain rfl := (Prod.mk.inj (Except.ok.inj h)).1
      exact .inl hlookup

/-- An issuance that is accepted or known waits in the pool afterwards. -/
theorem insertShareIssuance_holds {transaction : Bytes} {waiting : Bool}
    (h : (insertShareIssuance c v provider pool transaction waiting).1 = .accepted ∨
      (insertShareIssuance c v provider pool transaction waiting).1 = .duplicate) :
    (insertShareIssuance c v provider pool transaction waiting).2.HoldsTransaction provider
      transaction := by
  have hreports : ∃ held a, Admission.Reports provider pool transaction 0 held a ∧
      PendingPool.Settles provider pool a.result a.id a.pool ∧
      insertShareIssuance c v provider pool transaction waiting = (a.result, a.pool) := by
    unfold insertShareIssuance
    split
    · have hsettles := PendingPool.insert_settles pool transaction provider
      exact ⟨_, _,
        Admission.Reports.inserted none (insertionReport (pool.insert transaction provider).result),
        by simpa using hsettles, rfl⟩
    · exact ⟨_, _, sharePendingAdmit_reports, sharePendingAdmit_settles, rfl⟩
  obtain ⟨held, a, hreports, hsettles, heq⟩ := hreports
  rw [heq] at h ⊢
  rcases h with haccepted | hduplicate
  · obtain ⟨id, hid, -, hholds⟩ := hreports.accepted haccepted
    exact ⟨id, hid, hholds⟩
  · obtain ⟨id, hid, ⟨e, he, hkey⟩, -⟩ := hreports.duplicate hduplicate
    exact ⟨id, hid, e, hsettles.subset he, hkey⟩

/-- The second half of a submission that succeeds adds the issuance to what is there. -/
theorem submitShareIssuance_holds {id : Octets 32} {added : Option (Octets 32)}
    (h : (submitShareIssuance c v provider share id pool added).1 = .ok) :
    ∃ wallet issuance, wallet.type = .wallet ∧
      pool.NamesWallet v.state.compensation share.miner wallet ∧
      issuanceTransaction ⟨issuanceReasonShare, issuanceShareUnits, id, ⟨share.miner, wallet⟩⟩ =
        .ok issuance ∧
      pool.entries ⊆ (submitShareIssuance c v provider share id pool added).2.entries ∧
      (submitShareIssuance c v provider share id pool added).2.HoldsTransaction provider
        issuance := by
  generalize hresult : submitShareIssuance c v provider share id pool added = r at h ⊢
  unfold submitShareIssuance at hresult
  split at hresult
  · subst hresult
    cases h
  · subst hresult
    cases h
  · subst hresult
    cases h
  · subst hresult
    cases h
  next wallet waiting hwallet =>
  split at hresult
  · subst hresult
    cases h
  next htype =>
  split at hresult
  · subst hresult
    cases h
  next issuance hissuance =>
  obtain ⟨added', hsettles⟩ : ∃ id, PendingPool.Settles provider pool
      (insertShareIssuance c v provider pool issuance waiting).1 id
      (insertShareIssuance c v provider pool issuance waiting).2 :=
    insertShareIssuance_settles issuance waiting
  have hsub := hsettles.subset
  have hholds : _ → (insertShareIssuance c v provider pool issuance waiting).2.HoldsTransaction
      provider issuance :=
    insertShareIssuance_holds
  refine ⟨wallet, issuance, not_not.mp htype, namesWallet_of_shareWallet hwallet, hissuance, ?_⟩
  split at hresult
  · next hinsert =>
      rw [hinsert] at hsub hholds
      subst hresult
      exact ⟨hsub, hholds (.inl rfl)⟩
  · next hinsert =>
      rw [hinsert] at hsub hholds
      subst hresult
      exact ⟨hsub, hholds (.inr rfl)⟩
  · subst hresult
    exact absurd h (pendingCode_ne_ok _)

/-- A pair submitted with success waits in the pool. -/
theorem submitSharePair_holds (h : (submitSharePair c v provider share pool).code = .ok) :
    (submitSharePair c v provider share pool).pool.HoldsSharePair provider
      v.state.compensation share := by
  generalize hresult : submitSharePair c v provider share pool = r at h ⊢
  unfold submitSharePair at hresult
  split at hresult
  · subst hresult
    cases h
  next canonical hcanonical =>
  split at hresult
  · subst hresult
    cases h
  next evidence hevidence =>
  dsimp only at hresult
  split at hresult
  · subst hresult
    exact absurd h (pendingCode_ne_ok _)
  next haccepted =>
  split at hresult
  · subst hresult
    cases h
  next id hid =>
  subst hresult
  have hreports :
      (sharePendingAdmit pool evidence c v provider).Reports provider pool evidence 0 _ :=
    sharePendingAdmit_reports
  obtain ⟨evidenceId, hevidenceId, -, hholds⟩ := hreports.accepted (not_not.mp haccepted)
  obtain ⟨wallet, issuance, htype, hnames, hissuance, hsub, hadded⟩ := submitShareIssuance_holds h
  exact ⟨canonical, evidence, id, wallet, issuance, hcanonical, hevidence, hid, htype,
    hnames.mono hsub, hissuance,
    PendingPool.HoldsTransaction.mono ⟨evidenceId, hevidenceId, hholds⟩ hsub, hadded⟩

end Pair

/-! ## SUBMIT_SHARE -/

/-- A request to the service is answered from a history. -/
def MiningService.Loads (m : MiningService σ) (v : StorageView) : Prop :=
  ∃ prepared device, prepareSnapshot m = (.ok (), prepared) ∧
    storageLoad prepared.chain prepared.storage prepared.snapshotCapacity prepared.device =
      (.ok v, device)

/-- What a SUBMIT_SHARE request makes of the pool of a service: an answer of OK means that
the pair of the verified share waits in it; after any other nothing but what the history
includes left it. -/
structure SharePairOutcome (m : MiningService σ) (q : RpcMessage) (o : MiningOutcome σ)
    (pool pool' : PendingPool) : Prop where
  pending : o.service.pending = some pool'
  held : o.reply.code = some .ok → ∃ v share, m.Loads v ∧
    verifiedShare m.chain v q.payload = .ok share ∧
    pool'.HoldsSharePair m.chain.hashProvider v.state.compensation share
  kept : o.reply.code ≠ some .ok → pool' = pool ∨
    ∃ v, m.Loads v ∧ pool.PrunedOf m.chain.hashProvider v.blocks pool'

section Request

variable {m prepared : MiningService σ} {pool : PendingPool} {o : MiningOutcome σ}

theorem SharePairOutcome.refused (hpending : o.service.pending = some pool)
    (hcode : o.reply.code ≠ some .ok) : SharePairOutcome m q o pool pool where
  pending := hpending
  held h := absurd h hcode
  kept _ := .inl rfl

theorem prepareSnapshot_kept {r : Except RpcCode Unit} (h : prepareSnapshot m = (r, prepared)) :
    prepared.pending = m.pending ∧ prepared.chain = m.chain := by
  unfold prepareSnapshot at h
  dsimp only at h
  split at h
  · obtain rfl := (Prod.mk.inj h).2
    exact ⟨rfl, rfl⟩
  split at h
  · obtain rfl := (Prod.mk.inj h).2
    exact ⟨rfl, rfl⟩
  split at h
  · split at h
    all_goals
      obtain rfl := (Prod.mk.inj h).2
      exact ⟨rfl, rfl⟩
  · split at h
    all_goals
      obtain rfl := (Prod.mk.inj h).2
      exact ⟨rfl, rfl⟩
  · obtain rfl := (Prod.mk.inj h).2
    exact ⟨rfl, rfl⟩

theorem prepareSnapshot_ne_ok : prepareSnapshot m ≠ (.error .ok, prepared) := by
  intro h
  unfold prepareSnapshot at h
  dsimp only at h
  split at h
  · cases h
  split at h
  · next status _ _ =>
      have hcode := Except.error.inj (Prod.mk.inj h).1
      exact storageCode_error_ne_ok status hcode
  split at h
  · split at h
    · cases h
    · cases h
  · split at h
    · cases h
    · cases h
  · next status _ _ =>
      have hcode := Except.error.inj (Prod.mk.inj h).1
      exact storageCode_error_ne_ok _ hcode

theorem verifiedShare_ne_ok {c : ChainContext} {payload : Bytes} :
    verifiedShare c v payload ≠ .error .ok := by
  unfold verifiedShare
  split
  · next code hsubmitted =>
      intro h
      obtain rfl := Except.error.inj h
      unfold submittedShare at hsubmitted
      split at hsubmitted
      · cases hsubmitted
      split at hsubmitted
      · cases hsubmitted
      split at hsubmitted
      · cases hsubmitted
      split at hsubmitted
      · cases hsubmitted
      split at hsubmitted
      · cases hsubmitted
      · cases hsubmitted
  next share header _ =>
  intro h
  cases hwork : verifyShareWork c v share header with
  | ok _ =>
      rw [hwork] at h
      cases h
  | error code =>
      rw [hwork] at h
      obtain rfl := Except.error.inj h
      unfold verifyShareWork at hwork
      split at hwork
      · cases hwork
      · cases hwork
      · cases hwork
      · cases hwork
      split at hwork
      · cases hwork
      split at hwork
      · cases hwork
      · cases hwork
      split at hwork
      · cases hwork
      split at hwork
      · cases hwork
      · cases hwork

/-- The branch itself keeps or extends the pool it finds. -/
theorem submitShare_outcome {pool' : PendingPool} (hchain : prepared.chain = m.chain)
    (hpending : prepared.pending = some pool') (hsound : pool'.Sound m.chain.hashProvider)
    (hloads : m.Loads v) (hpruned : pool.PrunedOf m.chain.hashProvider v.blocks pool') :
    ∃ pool'', SharePairOutcome m q (submitShare prepared v q memory) pool pool'' := by
  rw [← hchain] at hsound hpruned
  unfold submitShare
  split
  · next code hverified =>
      refine ⟨pool', hpending, ?_, fun _ => .inr ⟨v, hloads, hchain ▸ hpruned⟩⟩
      intro hcode
      obtain rfl := Option.some.inj hcode
      exact absurd hverified verifiedShare_ne_ok
  next share hverified =>
  simp only [hpending]
  have hatomic : Atomic prepared.chain.hashProvider pool'
      (submitSharePair prepared.intelligence v prepared.chain.hashProvider share pool').code
      (submitSharePair prepared.intelligence v prepared.chain.hashProvider share pool').pool :=
    submitSharePair_atomic hsound share
  refine ⟨_, rfl, ?_, ?_⟩
  · intro hcode
    have hheld := submitSharePair_holds (Option.some.inj hcode)
    exact ⟨v, share, hloads, hchain ▸ hverified, hchain ▸ hheld⟩
  · intro hcode
    right
    refine ⟨v, hloads, ?_⟩
    rw [hatomic.unchanged fun h => hcode (congrArg some h)]
    exact hchain ▸ hpruned

/-- The request over a loaded history. -/
theorem pooledRequest_outcome (hmethod : q.methodOf = some .submitShare)
    (hchain : prepared.chain = m.chain) (hpending : prepared.pending = some pool)
    (hsound : pool.Sound m.chain.hashProvider) (hloads : m.Loads v) :
    ∃ pool', SharePairOutcome m q (pooledRequest prepared v q memory capacity) pool pool' := by
  have hinclusions : miningInclusions prepared v.blocks =
      pool.committedInclusions m.chain.hashProvider v.blocks := by
    simp only [miningInclusions, hpending, hchain]
  have hwork (s : MiningService σ) : workRequest s v q memory capacity =
      submitShare s v q memory := by
    simp only [workRequest, hmethod]
  unfold pooledRequest housekeeping
  rw [hmethod, hinclusions]
  cases hmask : pool.committedInclusions m.chain.hashProvider v.blocks with
  | error status =>
      exact ⟨pool, .refused hpending (by simp [MiningOutcome.plain, RpcReply.plain])⟩
  | ok mask =>
      simp only [hpending, Option.map_some, hwork]
      exact submitShare_outcome hchain rfl (hsound.prune mask) hloads (hsound.prunedOf hmask)

/-- Every SUBMIT_SHARE request, whatever operations made the pool of its service: answered
with OK it leaves the share and its issuance in the pool, and answered otherwise it leaves
the pool as it was but for entries of the accepted history. -/
theorem share_pair_admitted (m : MiningService σ) (calls : List PoolCall)
    (hpending : m.pending = some (poolRun m.chain.hashProvider calls)) (q : RpcMessage)
    (hmethod : q.methodOf = some .submitShare) (memory : Bytes) (capacity : ℕ) :
    ∃ pool', SharePairOutcome m q (miningHandle m q memory capacity)
      (poolRun m.chain.hashProvider calls) pool' := by
  have hsound := poolRun_sound m.chain.hashProvider calls
  generalize poolRun m.chain.hashProvider calls = pool at hpending hsound
  unfold miningHandle
  split
  · exact ⟨pool, .refused hpending (by simp [MiningOutcome.plain, RpcReply.plain])⟩
  simp only [hmethod]
  unfold loadedRequest
  split
  · next code prepared hprepared =>
      refine ⟨pool, .refused ((prepareSnapshot_kept hprepared).1.trans hpending) fun hcode => ?_⟩
      obtain rfl := Option.some.inj hcode
      exact prepareSnapshot_ne_ok hprepared
  next prepared hprepared =>
  obtain ⟨hkept, hchain⟩ := prepareSnapshot_kept hprepared
  have hpending := hkept.trans hpending
  split
  · next status device hloaded =>
      refine ⟨pool, .refused hpending fun hcode => ?_⟩
      exact storageCode_error_ne_ok status (Option.some.inj hcode)
  next v device hloaded =>
  have hloads : m.Loads v := ⟨prepared, device, hprepared, hloaded⟩
  simp only [miningRequest, hmethod]
  exact pooledRequest_outcome hmethod hchain hpending hsound hloads

end Request

end

section Sample

attribute [local instance] Sample.storing

namespace Sample

/-- A request to submit the mapping of a miner to its wallet. -/
def mappingRequest : RpcMessage :=
  ⟨1, 0x1005, .ok, 7, destination alice⟩

/-- The sample service when the mapping of the miner waits. -/
def mapped : MiningService (Option Bytes) :=
  { sharing with
    pending := some (poolRun storingContext.hashProvider [.insert (destination alice)]) }

/-- What the sample service answers to a submission. -/
def submitted (s : MiningService (Option Bytes)) : MiningOutcome (Option Bytes) :=
  miningHandle s mappingRequest (List.replicate 36 0) 36

end Sample

open Sample

/-- The mapping is accepted under its identifier.  Submitted again it is reported as known,
and the reply carries zeros in the place of the identifier. -/
theorem sample_duplicate_unnamed :
    let first := submitted sharing
    let second := submitted first.service
    (first.reply.code = some .ok ∧ wireRead first.reply.memory 2 2 = 0 ∧
      transactionId mappingRequest.payload storingContext.hashProvider =
        .ok (octetsAt first.reply.memory 4 32)) ∧
    (second.reply.code = some .ok ∧ wireRead second.reply.memory 2 2 = 1 ∧
      octetsAt second.reply.memory 4 32 = 0) ∧
    ¬second.reply.Identifies storingContext.hashProvider mappingRequest.payload := by
  have hfirst : (submitted sharing).reply.code = some .ok ∧
      wireRead (submitted sharing).reply.memory 2 2 = 0 ∧
      transactionId mappingRequest.payload storingContext.hashProvider =
        .ok (octetsAt (submitted sharing).reply.memory 4 32) := by
    decide +kernel
  have hsecond : (submitted (submitted sharing).service).reply.code = some .ok ∧
      wireRead (submitted (submitted sharing).service).reply.memory 2 2 = 1 ∧
      octetsAt (submitted (submitted sharing).service).reply.memory 4 32 = 0 := by
    decide +kernel
  have hid : transactionId mappingRequest.payload storingContext.hashProvider ≠ .ok 0 := by
    decide +kernel
  refine ⟨hfirst, hsecond, fun hidentifies => hid ?_⟩
  rw [hidentifies hsecond.1 (.inr hsecond.2.1), hsecond.2.2]

theorem sample_share_pair_admitted :
    let o := miningHandle mapped shareRequest (List.replicate 32 0) 32
    o.reply.code = some .ok ∧ ∃ pool', SharePairOutcome mapped shareRequest o
      (poolRun storingContext.hashProvider [.insert (destination alice)]) pool' :=
  ⟨by decide +kernel, share_pair_admitted mapped [.insert (destination alice)] rfl shareRequest
    (by decide) (List.replicate 32 0) 32⟩

end Sample

end StnChain
