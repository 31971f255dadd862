import StnChain.Chain.Rewards
import StnChain.Codecs
import StnChain.Pending.Assembly
import StnChain.Pending.Pairs
import StnChain.Support.Pairing

/-!
# Assembled bodies

A body assembled from a pool is a list of transactions of the pool that stand alone and of
pairs of an evidence and the issuance bound to it.  Whatever was selected, it is a body the
validator accepts, without a transaction twice, `assembled_body_paired`.
-/

namespace StnChain

section

variable [Primitives]

/-! ## What octets carry -/

/-- Octets that carry the evidence of a solved block. -/
def CarriesEvidence (t : Bytes) (evidence : BlockCompensationEvidence) : Prop :=
  ∃ tx, transactionDecode t = .ok tx ∧ tx.type = .blockCompensationEvidence ∧
    blockCompensationDecode tx.record = .ok evidence

/-- Octets that carry an issuance for a solved block. -/
def CarriesReward (t : Bytes) (issuance : IssuanceRecord) : Prop :=
  ∃ tx, transactionDecode t = .ok tx ∧ tx.type = .issuance ∧
    issuanceDecode tx.record = .ok issuance ∧ issuance.reason = issuanceReasonBlock

/-- Octets of a transaction that is no half of a pair. -/
def StandsAlone (t : Bytes) : Prop :=
  (∀ evidence, ¬CarriesEvidence t evidence) ∧ ∀ issuance, ¬CarriesReward t issuance

/-- An evidence and the issuance bound to it under some destinations. -/
def Rewarded (compensation : CompensationState) (t t' : Bytes) : Prop :=
  ∃ evidence issuance, CarriesEvidence t evidence ∧ CarriesReward t' issuance ∧
    issuanceBindBlock issuance evidence compensation = .ok ()

section Carries

variable {t t' : Bytes} {evidence evidence' : BlockCompensationEvidence}
  {issuance : IssuanceRecord} {compensation : CompensationState}

theorem CarriesEvidence.unique (h : CarriesEvidence t evidence)
    (h' : CarriesEvidence t evidence') : evidence = evidence' := by
  obtain ⟨tx, hdecode, -, hevidence⟩ := h
  obtain ⟨tx', hdecode', -, hevidence'⟩ := h'
  have htx : tx = tx' := Except.ok.inj (hdecode.symm.trans hdecode')
  rw [htx] at hevidence
  exact Except.ok.inj (hevidence.symm.trans hevidence')

theorem CarriesReward.unique {issuance' : IssuanceRecord} (h : CarriesReward t issuance)
    (h' : CarriesReward t issuance') : issuance = issuance' := by
  obtain ⟨tx, hdecode, -, hissuance, -⟩ := h
  obtain ⟨tx', hdecode', -, hissuance', -⟩ := h'
  have htx : tx = tx' := Except.ok.inj (hdecode.symm.trans hdecode')
  rw [htx] at hissuance
  exact Except.ok.inj (hissuance.symm.trans hissuance')

theorem CarriesEvidence.not_reward (h : CarriesEvidence t evidence) :
    ¬CarriesReward t issuance := by
  obtain ⟨tx, hdecode, htype, -⟩ := h
  rintro ⟨tx', hdecode', htype', -⟩
  have htx : tx = tx' := Except.ok.inj (hdecode.symm.trans hdecode')
  rw [htx, htype'] at htype
  cases htype

/-- An evidence is carried by one transaction only. -/
theorem CarriesEvidence.injective (h : CarriesEvidence t evidence)
    (h' : CarriesEvidence t' evidence) : t = t' := by
  obtain ⟨tx, hdecode, htype, hevidence⟩ := h
  obtain ⟨tx', hdecode', htype', hevidence'⟩ := h'
  obtain ⟨-, -, hbytes⟩ := transactionDecode_eq_ok hdecode
  obtain ⟨-, -, hbytes'⟩ := transactionDecode_eq_ok hdecode'
  have hrecord : tx.record = tx'.record :=
    (blockCompensationDecode_eq_ok hevidence).trans (blockCompensationDecode_eq_ok hevidence').symm
  rw [hbytes, hbytes', hrecord, htype, htype']

end Carries

/-! ## The transactions of a pool -/

section Pool

variable {provider : HashProvider} {pool : PendingPool}

/-- Entries of a sound pool have distinct transactions. -/
theorem PendingPool.Sound.nodup_transactions (hpool : pool.Sound provider) :
    (pool.entries.map PendingEntry.transaction).Nodup := by
  apply List.Nodup.map_on
  · intro e he e' he' hsame
    have hid := (hpool.formed e he).id
    rw [hsame, (hpool.formed e' he').id] at hid
    apply hpool.sorted.eq_of_key_eq he he'
    exact congrArg BitVec.toNat (Except.ok.inj hid).symm
  · exact List.Nodup.of_map _ hpool.sorted.nodup_map

/-- The generic entries are those of the pool whose transactions stand alone. -/
theorem genericEntries_eq_ok {entries generic : List PendingEntry}
    (h : genericEntries entries = .ok generic) :
    generic.Sublist entries ∧ ∀ e ∈ generic, StandsAlone e.transaction := by
  induction entries generalizing generic with
  | nil =>
      obtain rfl := Except.ok.inj h
      exact ⟨List.Sublist.refl [], fun e he => absurd he List.not_mem_nil⟩
  | cons e entries ih =>
      simp only [genericEntries] at h
      split at h
      · cases h
      next tx hdecode =>
      split at h
      · obtain ⟨hsub, halone⟩ := ih h
        exact ⟨hsub.cons e, halone⟩
      next hother =>
      obtain ⟨rest, hrest, rfl⟩ := map_eq_ok h
      obtain ⟨hsub, halone⟩ := ih hrest
      obtain ⟨hevidence, hreward⟩ := not_or.mp hother
      refine ⟨hsub.cons_cons e, ?_⟩
      intro e' he'
      rcases List.mem_cons.mp he' with rfl | he'
      · constructor
        · rintro evidence ⟨tx', hdecode', htype, -⟩
          obtain rfl := Except.ok.inj (hdecode.symm.trans hdecode')
          exact hevidence htype
        · rintro issuance ⟨tx', hdecode', htype, hissuance, hreason⟩
          obtain rfl := Except.ok.inj (hdecode.symm.trans hdecode')
          apply hreward
          simp [blockIssuanceType, htype, hissuance, hreason]
      · exact halone e' he'

/-- The issuance found for an evidence is bound to it. -/
theorem boundIssuance_eq_ok {evidence : BlockCompensationEvidence}
    {compensation : CompensationState} {entries : List PendingEntry} {t : Bytes}
    (h : boundIssuance evidence compensation entries = .ok (some t)) :
    t ∈ entries.map PendingEntry.transaction ∧ ∃ issuance, CarriesReward t issuance ∧
      issuanceBindBlock issuance evidence compensation = .ok () := by
  induction entries with
  | nil => cases h
  | cons e entries ih =>
      rw [List.map_cons]
      have hrest : boundIssuance evidence compensation entries = .ok (some t) →
          t ∈ e.transaction :: entries.map PendingEntry.transaction ∧
            ∃ issuance, CarriesReward t issuance ∧
              issuanceBindBlock issuance evidence compensation = .ok () :=
        fun hfound => ⟨List.mem_cons_of_mem _ (ih hfound).1, (ih hfound).2⟩
      simp only [boundIssuance] at h
      split at h
      · cases h
      next tx hdecode =>
      split at h
      · exact hrest h
      next htype =>
      split at h
      · exact hrest h
      next issuance hissuance =>
      split at h
      · next hbound =>
          obtain rfl := Option.some.inj (Except.ok.inj h)
          exact ⟨List.mem_cons_self, issuance,
            ⟨tx, hdecode, not_not.mp htype, hissuance, hbound.1⟩, hbound.2⟩
      · exact hrest h

/-! ## Selection -/

/-- Transactions drawn from the entries passed so far, each once. -/
structure Drawn (passed : List PendingEntry) (selected : List Bytes) : Prop where
  once : selected.Nodup
  passed : ∀ t ∈ selected, t ∈ passed.map PendingEntry.transaction

omit [Primitives] in
theorem Drawn.pass {passed : List PendingEntry} {selected : List Bytes}
    (h : Drawn passed selected) (e : PendingEntry) : Drawn (passed ++ [e]) selected := by
  refine ⟨h.once, ?_⟩
  intro t ht
  rw [List.map_append]
  exact List.mem_append_left _ (h.passed t ht)

omit [Primitives] in
theorem Drawn.take {passed : List PendingEntry} {selected : List Bytes}
    (h : Drawn passed selected) {e : PendingEntry}
    (hnew : e.transaction ∉ passed.map PendingEntry.transaction) :
    Drawn (passed ++ [e]) (selected ++ [e.transaction]) := by
  constructor
  · apply h.once.append (List.nodup_singleton _)
    rw [List.disjoint_singleton]
    exact fun ht => hnew (h.passed _ ht)
  · intro t ht
    rw [List.map_append]
    rcases List.mem_append.mp ht with ht | ht
    · exact List.mem_append_left _ (h.passed t ht)
    · exact List.mem_append_right _ ht

omit [Primitives] in
theorem Drawn.of_prefix {passed rest : List PendingEntry} {selected : List Bytes}
    (h : Drawn passed selected) : Drawn (passed ++ rest) selected := by
  refine ⟨h.once, ?_⟩
  intro t ht
  rw [List.map_append]
  exact List.mem_append_left _ (h.passed t ht)

/-- The loop over the identifiers draws from the entries. -/
theorem assembleLoop_drawn {c : Option ValidationContext} {active : StorageView}
    {replay : List Bool} {capacity : ℕ} {passed rest : List PendingEntry}
    {selected out : List Bytes} (hsorted : SortedTable.Sorted PendingEntry.key pool.entries)
    (hdistinct : (pool.entries.map PendingEntry.transaction).Nodup)
    (hsplit : pool.entries = passed ++ rest) (hdrawn : Drawn passed selected)
    (h : assembleLoop c active pool replay capacity (rest.map PendingEntry.id) selected =
      .ok out) : Drawn pool.entries out := by
  induction rest generalizing passed selected with
  | nil =>
      obtain rfl := Except.ok.inj h
      rw [hsplit]
      exact hdrawn.of_prefix
  | cons e rest ih =>
      have hnext : pool.entries = (passed ++ [e]) ++ rest := by
        rw [hsplit, List.append_assoc]
        rfl
      have hfound := hsorted.getElem?_length_below
        (show e ∈ pool.entries by rw [hsplit]; exact List.mem_append_right _ List.mem_cons_self)
      have hnew : e.transaction ∉ passed.map PendingEntry.transaction := by
        rw [hsplit, List.map_append, List.map_cons] at hdistinct
        intro ht
        exact List.disjoint_of_nodup_append hdistinct ht List.mem_cons_self
      simp only [List.map_cons, assembleLoop] at h
      split at h
      · obtain rfl := Except.ok.inj h
        rw [hsplit]
        exact hdrawn.of_prefix
      split at h
      · cases h
      next found hat =>
      obtain rfl : e = found := Option.some.inj (hfound.symm.trans hat)
      split at h
      · exact ih hnext (hdrawn.pass e) h
      split at h
      · cases h
      split at h
      · cases h
      · exact ih hnext (hdrawn.pass e) h
      split at h
      · obtain rfl := Except.ok.inj h
        rw [hsplit]
        exact hdrawn.of_prefix
      split at h
      · cases h
      · exact ih hnext (hdrawn.take hnew) h

/-- What a generic assembly returns. -/
theorem pendingAssemble_eq_ok {c : Option ValidationContext} {active : StorageView}
    {capacity count : ℕ} {body : Bytes}
    (hsorted : SortedTable.Sorted PendingEntry.key pool.entries)
    (hdistinct : (pool.entries.map PendingEntry.transaction).Nodup)
    (h : pendingAssemble pool c active capacity = .ok (body, count)) :
    ∃ selected, body = bodyBytes selected ∧ count = selected.length ∧
      Drawn pool.entries selected ∧ selected.length ≤ blockMaxTransactions ∧
      (bodyBytes selected).length ≤ capacity := by
  have hempty : Drawn pool.entries [] := ⟨List.nodup_nil, fun t ht => absurd ht List.not_mem_nil⟩
  have hnone : (body, count) = ([], 0) → ∃ selected, body = bodyBytes selected ∧
      count = selected.length ∧ Drawn pool.entries selected ∧
      selected.length ≤ blockMaxTransactions ∧ (bodyBytes selected).length ≤ capacity := by
    intro hpair
    obtain ⟨rfl, rfl⟩ := Prod.mk.inj hpair
    exact ⟨[], rfl, rfl, hempty, Nat.zero_le _, Nat.zero_le _⟩
  simp only [pendingAssemble] at h
  split at h
  · exact hnone (Except.ok.inj h).symm
  split at h
  · cases h
  split at h
  · cases h
  next selected hloop =>
  have hstart : Drawn [] ([] : List Bytes) :=
    ⟨List.nodup_nil, fun t ht => absurd ht List.not_mem_nil⟩
  have hdrawn : Drawn pool.entries selected :=
    assembleLoop_drawn hsorted hdistinct (List.nil_append _).symm hstart hloop
  split at h
  · exact hnone (Except.ok.inj h).symm
  obtain ⟨encoded, hencoded, hpair⟩ := map_eq_ok h
  obtain ⟨rfl, rfl⟩ := Prod.mk.inj hpair
  simp only [blockBodyEncode] at hencoded
  split at hencoded
  · cases hencoded
  next hcount =>
  split at hencoded
  · cases hencoded
  split at hencoded
  · cases hencoded
  next hcapacity =>
  obtain rfl := Except.ok.inj hencoded
  exact ⟨selected, rfl, rfl, hdrawn, not_lt.mp hcount, not_lt.mp hcapacity⟩

/-! ## Pairs -/

/-- Distinct evidences of a pool have distinct identifiers: the collision freedom of the
identifier's hash, on this pool. -/
def EvidenceIdsDistinct (pool : PendingPool) : Prop :=
  ∀ e ∈ pool.entries, ∀ e' ∈ pool.entries, ∀ evidence evidence',
    CarriesEvidence e.transaction evidence → CarriesEvidence e'.transaction evidence' →
    ∀ id, blockCompensationId evidence = .ok id → blockCompensationId evidence' = .ok id →
      evidence = evidence'

/-- A body under construction: singles and pairs of transactions of the pool, each once,
with evidence of the entries passed so far only. -/
structure Built (pool : PendingPool) (compensation : CompensationState) (capacity : ℕ)
    (passed : List PendingEntry) (ts : List Bytes) : Prop where
  paired : Pairing.Paired StandsAlone (Rewarded compensation) ts
  pending : ∀ t ∈ ts, t ∈ pool.entries.map PendingEntry.transaction
  once : ts.Nodup
  passed : ∀ t ∈ ts, ∀ evidence, CarriesEvidence t evidence →
    t ∈ passed.map PendingEntry.transaction
  count : ts.length ≤ blockMaxTransactions
  room : (bodyBytes ts).length ≤ capacity

variable {compensation : CompensationState} {capacity : ℕ} {passed rest : List PendingEntry}
  {ts : List Bytes}

theorem Built.pass (h : Built pool compensation capacity passed ts) (e : PendingEntry) :
    Built pool compensation capacity (passed ++ [e]) ts := by
  refine ⟨h.paired, h.pending, h.once, ?_, h.count, h.room⟩
  intro t ht evidence hevidence
  rw [List.map_append]
  exact List.mem_append_left _ (h.passed t ht evidence hevidence)

/-- A reward already in the body stands behind its evidence. -/
theorem Built.evidence_of_reward (h : Built pool compensation capacity passed ts) {t : Bytes}
    (ht : t ∈ ts) {issuance : IssuanceRecord} (hreward : CarriesReward t issuance) :
    ∃ t' ∈ ts, ∃ evidence, CarriesEvidence t' evidence ∧
      issuanceBindBlock issuance evidence compensation = .ok () := by
  obtain ⟨k, hk, hat⟩ := List.mem_iff_getElem.mp ht
  have hsome : ts[k]? = some t := List.getElem?_eq_some_iff.mpr ⟨hk, hat⟩
  have hfirst : ∀ t', ¬Rewarded compensation t t' := by
    rintro t' ⟨evidence, _, hevidence, -, -⟩
    exact hevidence.not_reward hreward
  obtain ⟨j, t', -, ht', evidence, issuance', hevidence, hreward', hbind⟩ :=
    h.paired.prev hsome (fun halone => halone.2 issuance hreward) hfirst
  obtain rfl := hreward.unique hreward'
  exact ⟨t', List.mem_of_getElem? ht', evidence, hevidence, hbind⟩

/-- A pair that fits is appended. -/
theorem Built.append (h : Built pool compensation capacity passed ts)
    (hpool : pool.Sound provider) (hids : EvidenceIdsDistinct pool) {e : PendingEntry}
    (hsplit : pool.entries = passed ++ e :: rest) {t : Bytes}
    {evidence : BlockCompensationEvidence} {issuance : IssuanceRecord}
    (hevidence : CarriesEvidence e.transaction evidence)
    (ht : t ∈ pool.entries.map PendingEntry.transaction) (hreward : CarriesReward t issuance)
    (hbind : issuanceBindBlock issuance evidence compensation = .ok ())
    (hfits : pairFits (bodyBytes ts) ts.length capacity e.transaction t = true) :
    Built pool compensation capacity (passed ++ [e]) (ts ++ [e.transaction, t]) := by
  have he : e ∈ pool.entries := by
    rw [hsplit]
    exact List.mem_append_right _ List.mem_cons_self
  have hdistinct := hpool.nodup_transactions
  have hnew : e.transaction ∉ ts := by
    intro hmem
    have hpassed := h.passed _ hmem evidence hevidence
    rw [hsplit, List.map_append, List.map_cons] at hdistinct
    exact List.disjoint_of_nodup_append hdistinct hpassed List.mem_cons_self
  have hnew' : t ∉ ts := by
    intro hmem
    obtain ⟨t', ht', evidence', hevidence', hbind'⟩ := h.evidence_of_reward hmem hreward
    obtain ⟨e', he', rfl⟩ := List.mem_map.mp (h.pending t' ht')
    have hsame : evidence' = evidence := hids e' he' e he evidence' evidence hevidence' hevidence
      issuance.evidenceId (issuanceBindBlock_evidenceId hbind') (issuanceBindBlock_evidenceId hbind)
    rw [hsame] at hevidence'
    rw [hevidence'.injective hevidence] at ht'
    exact hnew ht'
  have hother : e.transaction ≠ t := by
    intro hsame
    rw [hsame] at hevidence
    exact hevidence.not_reward hreward
  simp only [pairFits, Bool.and_eq_true, decide_eq_true_eq] at hfits
  obtain ⟨⟨hcount, hfirst⟩, hsecond⟩ := hfits
  have hmax : blockMaxTransactions = 32 := rfl
  constructor
  · exact h.paired.snoc ⟨evidence, issuance, hevidence, hreward, hbind⟩
  · intro t' ht'
    rcases List.mem_append.mp ht' with ht' | ht'
    · exact h.pending t' ht'
    rcases List.mem_pair.mp ht' with rfl | rfl
    · exact List.mem_map_of_mem he
    · exact ht
  · apply h.once.append (List.nodup_cons.mpr ⟨by simpa using hother, List.nodup_singleton t⟩)
    intro t' hmem ht'
    rcases List.mem_pair.mp ht' with rfl | rfl
    · exact hnew hmem
    · exact hnew' hmem
  · intro t' ht' evidence' hevidence'
    rw [List.map_append]
    rcases List.mem_append.mp ht' with ht' | ht'
    · exact List.mem_append_left _ (h.passed t' ht' evidence' hevidence')
    rcases List.mem_pair.mp ht' with rfl | rfl
    · exact List.mem_append_right _ (List.mem_singleton.mpr rfl)
    · exact absurd hreward hevidence'.not_reward
  · rw [List.length_append, List.length_cons, List.length_singleton]
    omega
  · have hroom := h.room
    rw [length_bodyBytes] at hroom hfirst hsecond ⊢
    rw [List.map_append, List.sum_append]
    simp only [List.map_cons, List.map_nil, List.sum_cons, List.sum_nil]
    omega

/-- The loop over the evidence extends a body by pairs. -/
theorem appendPairs_built (hpool : pool.Sound provider) (hids : EvidenceIdsDistinct pool)
    {active : StorageView} (hsplit : pool.entries = passed ++ rest)
    (h : Built pool active.state.compensation capacity passed ts) {body : Bytes} {count : ℕ}
    (happend : appendPairs active capacity pool.entries rest (bodyBytes ts, ts.length) =
      .ok (body, count)) :
    ∃ ts', body = bodyBytes ts' ∧ count = ts'.length ∧
      Built pool active.state.compensation capacity pool.entries ts' := by
  induction rest generalizing passed ts with
  | nil =>
      obtain ⟨rfl, rfl⟩ := Prod.mk.inj (Except.ok.inj happend)
      rw [List.append_nil] at hsplit
      rw [hsplit]
      exact ⟨ts, rfl, rfl, h⟩
  | cons e rest ih =>
      have hnext : pool.entries = (passed ++ [e]) ++ rest := by
        rw [hsplit, List.append_assoc]
        rfl
      simp only [appendPairs] at happend
      split at happend
      · cases happend
      next tx hdecode =>
      split at happend
      · exact ih hnext (h.pass e) happend
      next htype =>
      split at happend
      · cases happend
      next evidence hevidence =>
      have hcarries : CarriesEvidence e.transaction evidence :=
        ⟨tx, hdecode, not_not.mp htype, hevidence⟩
      split at happend
      · exact ih hnext (h.pass e) happend
      split at happend
      · cases happend
      · exact ih hnext (h.pass e) happend
      next t hfound =>
      obtain ⟨ht, issuance, hreward, hbind⟩ := boundIssuance_eq_ok hfound
      split at happend
      · exact ih hnext (h.pass e) happend
      next hfits =>
      have hpairFits : pairFits (bodyBytes ts) ts.length capacity e.transaction t = true := by
        simpa using hfits
      have hbuilt := h.append hpool hids hsplit hcarries ht hreward hbind hpairFits
      rw [← bodyBytes_append] at happend
      have hlength : ts.length + 2 = (ts ++ [e.transaction, t]).length := by
        rw [List.length_append]
        rfl
      rw [hlength] at happend
      exact ih hnext hbuilt happend

/-- What a candidate carries of a pool: a body within the limits that the validator accepts,
with transactions of the pool, each once, and with every evidence directly in front of the
issuance bound to it. -/
structure AssembledBody (pool : PendingPool) (compensation : CompensationState) (body : Bytes)
    (count : ℕ) : Prop where
  room : count ≤ blockMaxTransactions
  bytes : body.length ≤ blockMaxBody
  valid : blockBodyValidateStructure body count = .ok ()
  octets : body = bodyBytes (bodyTransactions count body)
  pending : ∀ t ∈ bodyTransactions count body, ∃ e ∈ pool.entries, e.transaction = t
  once : (bodyTransactions count body).Nodup
  evidence : ∀ (k : ℕ) (t : Bytes) (evidence : BlockCompensationEvidence),
    (bodyTransactions count body)[k]? = some t → CarriesEvidence t evidence →
    ∃ t' issuance, (bodyTransactions count body)[k + 1]? = some t' ∧ CarriesReward t' issuance ∧
      issuanceBindBlock issuance evidence compensation = .ok ()
  reward : ∀ (k : ℕ) (t : Bytes) (issuance : IssuanceRecord),
    (bodyTransactions count body)[k]? = some t → CarriesReward t issuance →
    ∃ j t' evidence, k = j + 1 ∧ (bodyTransactions count body)[j]? = some t' ∧
      CarriesEvidence t' evidence ∧ issuanceBindBlock issuance evidence compensation = .ok ()

theorem Built.assembled (hpool : pool.Sound provider)
    (h : Built pool compensation capacity passed ts) :
    AssembledBody pool compensation (bodyBytes ts) ts.length := by
  have hcarried : ∀ t ∈ ts, Carried t := by
    intro t ht
    obtain ⟨e, he, rfl⟩ := List.mem_map.mp (h.pending t ht)
    obtain ⟨tx, hdecode, -⟩ := (hpool.formed e he).pair
    exact Carried.of_decode hdecode
  have hbody : bodyTransactions ts.length (bodyBytes ts) = ts := bodyTransactions_bytes hcarried
  constructor
  · exact h.count
  · exact (length_bodyBytes_le hcarried).2.trans (Nat.mul_le_mul_right _ h.count)
  · exact blockBodyValidateStructure_bytes hcarried h.count
  · rw [hbody]
  · rw [hbody]
    exact fun t ht => List.mem_map.mp (h.pending t ht)
  · rw [hbody]
    exact h.once
  · rw [hbody]
    intro k t evidence ht hevidence
    have hsecond : ∀ t', ¬Rewarded compensation t' t := by
      rintro t' ⟨_, _, -, hreward, -⟩
      exact hevidence.not_reward hreward
    obtain ⟨t', ht', evidence', issuance, hevidence', hreward, hbind⟩ :=
      h.paired.next ht (fun halone => halone.1 evidence hevidence) hsecond
    obtain rfl := hevidence.unique hevidence'
    exact ⟨t', issuance, ht', hreward, hbind⟩
  · rw [hbody]
    intro k t issuance ht hreward
    have hfirst : ∀ t', ¬Rewarded compensation t t' := by
      rintro t' ⟨_, _, hevidence, -, -⟩
      exact hevidence.not_reward hreward
    obtain ⟨j, t', hj, ht', evidence, issuance', hevidence, hreward', hbind⟩ :=
      h.paired.prev ht (fun halone => halone.2 issuance hreward) hfirst
    obtain rfl := hreward.unique hreward'
    exact ⟨j, t', evidence, hj, ht', hevidence, hbind⟩

/-- Every body assembled from a sound pool, as every pool reached is, carries transactions of
the pool, each once, within the limits and in pairs. -/
theorem assembled_body_paired (hpool : pool.Sound provider) (hids : EvidenceIdsDistinct pool)
    {c : Option ValidationContext} {active : StorageView} {capacity count : ℕ} {body : Bytes}
    (h : blockCompensationPendingAssemble pool c active capacity = .ok (body, count)) :
    AssembledBody pool active.state.compensation body count ∧ body.length ≤ capacity := by
  simp only [blockCompensationPendingAssemble] at h
  split at h
  · cases h
  next generic hgeneric =>
  split at h
  · cases h
  next built hbuilt =>
  obtain ⟨hsub, halone⟩ := genericEntries_eq_ok hgeneric
  have hdistinct := (hsub.map PendingEntry.transaction).nodup hpool.nodup_transactions
  obtain ⟨selected, hselected, hcount, hdrawn, hmax, hroom⟩ :=
    pendingAssemble_eq_ok (hpool.sorted.sublist hsub) hdistinct hbuilt
  have hsingles : ∀ t ∈ selected, StandsAlone t := by
    intro t ht
    obtain ⟨e, he, rfl⟩ := List.mem_map.mp (hdrawn.passed t ht)
    exact halone e he
  have hstart : Built pool active.state.compensation capacity [] selected := by
    refine ⟨.of_forall hsingles, ?_, hdrawn.once, ?_, hmax, hroom⟩
    · exact fun t ht => (hsub.map PendingEntry.transaction).subset (hdrawn.passed t ht)
    · exact fun t ht evidence hevidence => absurd hevidence ((hsingles t ht).1 evidence)
  have hpair : built = (bodyBytes selected, selected.length) := Prod.ext hselected hcount
  rw [hpair] at h
  obtain ⟨ts, rfl, rfl, hts⟩ :=
    appendPairs_built hpool hids (List.nil_append pool.entries).symm hstart h
  exact ⟨hts.assembled hpool, hts.room⟩

end Pool

end

section Sample

attribute [local instance] Sample.primitives

namespace Sample

/-- The view of a miner before the rewards. -/
def rewardView (s : ChainState) : StorageView :=
  ⟨[genesis, empty, shares], s⟩

/-- The issuance for the empty block. -/
def emptyReward : Bytes :=
  issuance issuanceReasonBlock issuanceBlockUnits
    0xc24974013048c372bbc42f36bb4e46823380a5217dc5e8031328f96d99c66c49 alice

/-- A pool with the reward of the empty block. -/
def rewardPool (s : ChainState) : PendingPool :=
  poolRun context.hashProvider
    [.admitBlockCompensation (evidence emptyId alice) none (rewardView s),
      .admitBlockCompensation emptyReward none (rewardView s)]

end Sample

open Sample

/-- The reward waits as evidence and issuance, and both are assembled. -/
theorem sample_reward_assembled : ∃ s body, Accepts context [genesis, empty, shares] s ∧
    AssembledBody (rewardPool s) s.compensation body 2 := by
  obtain ⟨s, hs, hp⟩ := accepts_of_any context [genesis, empty, shares]
    (fun s =>
      (rewardPool s).entries.all (fun e =>
        e.transaction = evidence emptyId alice ∨ e.transaction = emptyReward) &&
      (match blockCompensationPendingAssemble (rewardPool s) none (rewardView s) blockMaxBody with
        | .error _ => false
        | .ok (_, count) => count = 2)) (by decide +kernel)
  obtain ⟨hentries, hbuilt⟩ := Bool.and_eq_true_iff.mp hp
  rw [List.all_eq_true] at hentries
  split at hbuilt
  · cases hbuilt
  next body count hassembled =>
  obtain rfl : count = 2 := of_decide_eq_true hbuilt
  have hids : EvidenceIdsDistinct (rewardPool s) := by
    have hone : ∀ e ∈ (rewardPool s).entries, ∀ claim, CarriesEvidence e.transaction claim →
        e.transaction = evidence emptyId alice := by
      intro e he claim hclaim
      rcases of_decide_eq_true (hentries e he) with hevidence | hreward
      · exact hevidence
      · obtain ⟨tx, hdecode, htype, -⟩ := hclaim
        have hother : (transactionDecode emptyReward).toOption.any
            (fun tx => tx.type = .issuance) = true := by
          decide +kernel
        rw [hreward] at hdecode
        rw [hdecode] at hother
        have hissuance : tx.type = .issuance := of_decide_eq_true hother
        rw [htype] at hissuance
        cases hissuance
    intro e he e' he' claim claim' hclaim hclaim' _ _ _
    rw [hone e he claim hclaim] at hclaim
    rw [hone e' he' claim' hclaim'] at hclaim'
    exact hclaim.unique hclaim'
  exact ⟨s, body, hs, (assembled_body_paired (poolRun_sound _ _) hids hassembled).1⟩

end Sample

end StnChain
