import StnChain.Chain.Validate
import StnChain.Support.PastRun

/-!
# Accepted histories

`stn_chain_reconstruct_history` of `stn_chain.c` validates a list of blocks from
the canonical empty state, each block with the accepted prefix before it.
`Reaches` is that loop as a run of `PastRun`, and `Accepts` is its success on a
nonempty list.  `Reaches.fold` reads a quantity of the final state off the
transactions of the history.
-/

namespace StnChain

variable [Primitives]

/-! ## Reconstruction -/

/-- One round of the loop of `stn_chain_reconstruct_history`. -/
def reconstructStep (c : ChainContext) (past : List Bytes) (s : ChainState) (bytes : Bytes) :
    Except ChainReport ChainState :=
  match validateCandidate c s (some past) bytes true with
  | .error r => .error { r with failingIndex := some past.length }
  | .ok (_, s) => .ok s

/-- `stn_chain_reconstruct_history`; the report of a success is that of its last block. -/
def chainReconstructHistory (c : ChainContext) (blocks : List Bytes) :
    ChainReport × Option ChainState :=
  if blocks = [] then (initialReport.fail .argument .argument, none)
  else
    match chainInitialize c with
    | .error status => (initialReport.fail .context status, none)
    | .ok s =>
        match PastRun.run (reconstructStep c) [] s blocks with
        | .error r => (r, none)
        | .ok s => (acceptedReport c, some s)

/-- Reconstruction accepts a history with a final state. -/
def Accepts (c : ChainContext) (blocks : List Bytes) (s : ChainState) : Prop :=
  chainReconstructHistory c blocks = (acceptedReport c, some s)

/-- The loop of reconstruction reaches a state after some blocks. -/
def Reaches (c : ChainContext) (blocks : List Bytes) (s : ChainState) : Prop :=
  ∃ s₀, chainInitialize c = .ok s₀ ∧ PastRun.Reach (reconstructStep c) s₀ blocks s

theorem accepts_iff {c : ChainContext} {blocks : List Bytes} {s : ChainState} :
    Accepts c blocks s ↔ blocks ≠ [] ∧ Reaches c blocks s := by
  simp only [Accepts, chainReconstructHistory, Reaches]
  split
  · next h => simp [h]
  next hblocks =>
  split
  · next h => simp [h]
  next s₀ hinit =>
  simp only [hinit, ← PastRun.run_eq_ok_iff]
  split
  · next h => simp [h]
  · next h => simp [h, hblocks]

theorem accepts_of_state {c : ChainContext} {blocks : List Bytes} {r : ChainReport}
    {s : ChainState} (h : chainReconstructHistory c blocks = (r, some s)) :
    Accepts c blocks s := by
  have h' := h
  simp only [chainReconstructHistory] at h'
  split at h'
  · simp at h'
  split at h'
  · simp at h'
  split at h'
  · simp at h'
  · obtain ⟨rfl, -⟩ := Prod.mk.inj h'
    exact h

theorem reconstructStep_eq_ok_iff {c : ChainContext} {past : List Bytes} {s s' : ChainState}
    {bytes : Bytes} :
    reconstructStep c past s bytes = .ok s' ↔
      ∃ b flags candidate, CandidatePrepared c s bytes true b flags candidate ∧
        Applied (candidateEnv c s (some past) b flags) b.transactions candidate s' := by
  have hvalidate : reconstructStep c past s bytes = .ok s' ↔
      ∃ r, validateCandidate c s (some past) bytes true = .ok (r, s') := by
    simp only [reconstructStep]
    split
    · next h => simp [h]
    · next h => simp [h]
  rw [hvalidate]
  constructor
  · rintro ⟨r, h⟩
    obtain ⟨b, flags, candidate, hprepared, happlied, -⟩ := validateCandidate_eq_ok_iff.mp h
    exact ⟨b, flags, candidate, hprepared, happlied⟩
  · rintro ⟨b, flags, candidate, hprepared, happlied⟩
    exact ⟨_, validateCandidate_eq_ok_iff.mpr
      ⟨b, flags, candidate, hprepared, happlied, rfl⟩⟩

theorem reaches_snoc_iff {c : ChainContext} {past : List Bytes} {bytes : Bytes}
    {s' : ChainState} :
    Reaches c (past ++ [bytes]) s' ↔
      ∃ s, Reaches c past s ∧ reconstructStep c past s bytes = .ok s' := by
  simp only [Reaches, PastRun.reach_snoc_iff]
  constructor
  · rintro ⟨s₀, hinit, s, hreach, hstep⟩
    exact ⟨s, ⟨s₀, hinit, hreach⟩, hstep⟩
  · rintro ⟨s, ⟨s₀, hinit, hreach⟩, hstep⟩
    exact ⟨s₀, hinit, s, hreach, hstep⟩

theorem Reaches.unique {c : ChainContext} {blocks : List Bytes} {s t : ChainState}
    (hs : Reaches c blocks s) (ht : Reaches c blocks t) : s = t := by
  obtain ⟨s₀, hinit, hs⟩ := hs
  obtain ⟨t₀, hinit', ht⟩ := ht
  obtain rfl := Except.ok.inj (hinit.symm.trans hinit')
  exact hs.unique ht

/-- The round a reconstruction took at any of its blocks. -/
theorem Reaches.step_at {c : ChainContext} {past rest : List Bytes} {bytes : Bytes}
    {t : ChainState} (h : Reaches c (past ++ bytes :: rest) t) :
    ∃ s s', Reaches c past s ∧ reconstructStep c past s bytes = .ok s' ∧
      Reaches c (past ++ [bytes]) s' := by
  obtain ⟨s₀, hinit, hreach⟩ := h
  obtain ⟨s, s', hs, hstep, hs'⟩ := hreach.step_at
  exact ⟨s, s', ⟨s₀, hinit, hs⟩, hstep, s₀, hinit, hs'⟩

theorem Reaches.decode_of_mem {c : ChainContext} {blocks : List Bytes} {s : ChainState}
    (h : Reaches c blocks s) {bytes : Bytes} (hbytes : bytes ∈ blocks) :
    ∃ b, blockDecode bytes = .ok b := by
  obtain ⟨past, rest, rfl⟩ := List.append_of_mem hbytes
  obtain ⟨prior, s', -, hstep, -⟩ := h.step_at
  obtain ⟨b, flags, candidate, hprepared, -⟩ := reconstructStep_eq_ok_iff.mp hstep
  exact ⟨b, hprepared.decode⟩

theorem Reaches.blockId_of_mem {c : ChainContext} {blocks : List Bytes} {s : ChainState}
    (h : Reaches c blocks s) {bytes : Bytes} (hbytes : bytes ∈ blocks) :
    ∃ id, chainBlockId bytes c.hashProvider = .ok id := by
  obtain ⟨past, rest, rfl⟩ := List.append_of_mem hbytes
  obtain ⟨prior, s', -, hstep, -⟩ := h.step_at
  obtain ⟨b, flags, candidate, hprepared, -⟩ := reconstructStep_eq_ok_iff.mp hstep
  obtain ⟨id, next, hid, -⟩ := hprepared.next
  exact ⟨id, hid⟩

theorem historyContains_of_mem {provider : HashProvider} {blocks : List Bytes} {id : Octets 32}
    (hids : ∀ bytes ∈ blocks, ∃ id, chainBlockId bytes provider = .ok id)
    (h : ∃ bytes ∈ blocks, chainBlockId bytes provider = .ok id) :
    historyContains id provider blocks = .ok true := by
  induction blocks with
  | nil => simp at h
  | cons bytes rest ih =>
      obtain ⟨accepted, haccepted⟩ := hids bytes (by simp)
      simp only [historyContains, haccepted]
      split
      · rfl
      next hne =>
      refine ih (fun t ht => hids t (by simp [ht])) ?_
      obtain ⟨t, ht, hid⟩ := h
      rcases List.mem_cons.mp ht with rfl | ht
      · exact absurd (Except.ok.inj (haccepted.symm.trans hid)) hne
      · exact ⟨t, ht, hid⟩

/-- The invariant rule of reconstruction. -/
theorem Reaches.invariant {c : ChainContext} {P : List Bytes → ChainState → Prop}
    (hinit : ∀ s, chainInitialize c = .ok s → P [] s)
    (hstep : ∀ past s bytes b flags candidate s', Reaches c past s → P past s →
      CandidatePrepared c s bytes true b flags candidate →
      Applied (candidateEnv c s (some past) b flags) b.transactions candidate s' →
      P (past ++ [bytes]) s')
    {blocks : List Bytes} {s : ChainState} (h : Reaches c blocks s) : P blocks s := by
  obtain ⟨s₀, h₀, hreach⟩ := h
  refine hreach.invariant (hinit s₀ h₀) fun past s bytes s' hreach hP hnext => ?_
  obtain ⟨b, flags, candidate, hprepared, happlied⟩ := reconstructStep_eq_ok_iff.mp hnext
  exact hstep past s bytes b flags candidate s' ⟨s₀, h₀, hreach⟩ hP hprepared happlied

/-! ## Heights and tips -/

/-- A state whose height and tip are those of the last block of a history. -/
structure TipOf (c : ChainContext) (blocks : List Bytes) (s : ChainState) : Prop where
  hasTip : s.hasTip = true ↔ blocks ≠ []
  height : blocks ≠ [] → s.height.toNat + 1 = blocks.length
  tipId : ∀ past bytes, blocks = past ++ [bytes] →
    chainBlockId bytes c.hashProvider = .ok s.tipId

/-- The genesis block of a valid context has height zero. -/
theorem genesis_height {c : ChainContext} (h : contextValid c = .ok ()) {b : Block}
    (hdecode : blockDecode c.genesisBytes = .ok b) : b.header.height = 0 := by
  simp only [contextValid] at h
  split at h
  · simp at h
  split at h
  · simp at h
  split at h
  · simp at h
  next b' hdecode' =>
  obtain rfl := Except.ok.inj (hdecode.symm.trans hdecode')
  split at h
  · simp at h
  next hgenesis =>
  exact not_not.mp (not_or.mp hgenesis).1

/-- A block continues a history at the height that is the number of its blocks. -/
theorem CandidatePrepared.height_eq {c : ChainContext} {prior : ChainState} {bytes : Bytes}
    {reconstruct : Bool} {b : Block} {flags : CandidateFlags} {candidate : ChainState}
    (h : CandidatePrepared c prior bytes reconstruct b flags candidate) {past : List Bytes}
    (hprior : TipOf c past prior) : b.header.height.toNat = past.length := by
  have hlink := h.link
  simp only [linkFailure] at hlink
  split at hlink
  · simp at hlink
  split at hlink
  · next hempty =>
      split at hlink
      · simp at hlink
      next hgenesis =>
      have hdecode := h.decode
      rw [not_not.mp hgenesis] at hdecode
      rw [genesis_height h.context hdecode]
      by_contra hne
      have hpast : past ≠ [] := by
        rintro rfl
        exact hne rfl
      simp [hprior.hasTip.mpr hpast] at hempty
  · next htip =>
      split at hlink
      · simp at hlink
      next hheight =>
      obtain ⟨hmax, hnext⟩ := not_or.mp hheight
      have hpast := hprior.hasTip.mp (by simpa using htip)
      rw [not_not.mp hnext, ← hprior.height hpast]
      have hlt := prior.height.toNat_lt
      have hne : prior.height.toNat ≠ 2 ^ 64 - 1 := fun heq =>
        hmax (UInt64.toNat_inj.mp (heq.trans rfl))
      rw [UInt64.toNat_add]
      simp only [UInt64.toNat_one]
      omega

/-- The next state of a prepared candidate has the block's height, timestamp and identifier. -/
theorem CandidateWorked.tip {c : ChainContext} {prior : ChainState} {b : Block}
    {id : Octets 32} {next : ChainState} (h : CandidateWorked c prior b id next) :
    next.hasTip = true ∧ next.height = b.header.height ∧ next.tipId = id ∧
      next.timestamp = b.header.timestamp := by
  simp only [CandidateWorked] at h
  split at h
  · obtain rfl := h
    exact ⟨rfl, rfl, rfl, rfl⟩
  · obtain ⟨-, -, work, -, rfl⟩ := h
    exact ⟨rfl, rfl, rfl, rfl⟩

theorem Reaches.tipOf {c : ChainContext} {blocks : List Bytes} {s : ChainState}
    (h : Reaches c blocks s) : TipOf c blocks s := by
  refine h.invariant (P := TipOf c) ?_ ?_
  · intro s hs
    obtain ⟨-, activation, -, rfl⟩ := chainInitialize_eq_ok hs
    exact ⟨by simp [emptyState], by simp, by simp⟩
  · intro past s bytes b flags candidate s' _ hprior hprepared happlied
    obtain ⟨id, next, hid, -, hworked, htip, -⟩ := hprepared.next_state
    obtain ⟨hhas, hheight, htipId, -⟩ := hworked.tip
    have hsame := htip.trans happlied.sameTip
    refine ⟨by simp [hsame.hasTip, hhas], ?_, ?_⟩
    · intro _
      rw [hsame.height, hheight, hprepared.height_eq hprior]
      simp
    · intro past' bytes' hsplit
      obtain ⟨rfl, hlast⟩ := List.append_inj' hsplit rfl
      obtain rfl : bytes = bytes' := by simpa using hlast
      rw [hid, hsame.tipId, htipId]

/-- The height of a block of an accepted history is the number of blocks before it. -/
theorem Reaches.height_at {c : ChainContext} {past rest : List Bytes} {bytes : Bytes}
    {s : ChainState} (h : Reaches c (past ++ bytes :: rest) s) {b : Block}
    (hdecode : blockDecode bytes = .ok b) : b.header.height.toNat = past.length := by
  obtain ⟨prior, s', hprior, hstep, -⟩ := h.step_at
  obtain ⟨b', flags, candidate, hprepared, -⟩ := reconstructStep_eq_ok_iff.mp hstep
  obtain rfl := Except.ok.inj (hdecode.symm.trans hprepared.decode)
  exact hprepared.height_eq hprior.tipOf

/-! ## The transactions of a history -/

/-- The transactions of a block, as the octets its body delimits. -/
def blockTransactions (bytes : Bytes) : List Bytes :=
  match blockDecode bytes with
  | .error _ => []
  | .ok b => b.transactions

/-- The decoded transactions of a list of transaction octets. -/
def decodedTransactions (ts : List Bytes) : List Transaction :=
  ts.filterMap fun t => (transactionDecode t).toOption

/-- The transactions of a history, in block and body order. -/
def historyTransactions (blocks : List Bytes) : List Transaction :=
  blocks.flatMap fun bytes => decodedTransactions (blockTransactions bytes)

theorem blockTransactions_of_decode {bytes : Bytes} {b : Block}
    (h : blockDecode bytes = .ok b) : blockTransactions bytes = b.transactions := by
  simp [blockTransactions, h]

@[simp]
theorem decodedTransactions_nil : decodedTransactions [] = [] := rfl

theorem decodedTransactions_cons {t : Bytes} {tx : Transaction} {ts : List Bytes}
    (h : transactionDecode t = .ok tx) :
    decodedTransactions (t :: ts) = tx :: decodedTransactions ts := by
  simp [decodedTransactions, h, Except.toOption]

theorem mem_decodedTransactions {ts : List Bytes} {tx : Transaction} :
    tx ∈ decodedTransactions ts ↔ ∃ t ∈ ts, transactionDecode t = .ok tx := by
  simp only [decodedTransactions, List.mem_filterMap]
  constructor
  · rintro ⟨t, ht, htx⟩
    cases hdecode : transactionDecode t with
    | error status => simp [hdecode, Except.toOption] at htx
    | ok tx' =>
        obtain rfl : tx' = tx := by simpa [hdecode, Except.toOption] using htx
        exact ⟨t, ht, hdecode⟩
  · rintro ⟨t, ht, hdecode⟩
    exact ⟨t, ht, by simp [hdecode, Except.toOption]⟩

@[simp]
theorem historyTransactions_nil : historyTransactions [] = [] := rfl

@[simp]
theorem historyTransactions_append (past rest : List Bytes) :
    historyTransactions (past ++ rest) =
      historyTransactions past ++ historyTransactions rest := by
  simp [historyTransactions]

theorem historyTransactions_singleton {bytes : Bytes} {b : Block}
    (h : blockDecode bytes = .ok b) :
    historyTransactions [bytes] = decodedTransactions b.transactions := by
  simp [historyTransactions, blockTransactions_of_decode h]

/-- The issuance record of a transaction, when it has the given reason. -/
def Transaction.issuance (reason : UInt8) (tx : Transaction) : Option IssuanceRecord :=
  if tx.type = .issuance then
    match issuanceDecode tx.record with
    | .ok r => if r.reason = reason then some r else none
    | .error _ => none
  else none

omit [Primitives] in
theorem issuance_eq_some_iff {reason : UInt8} {tx : Transaction} {r : IssuanceRecord} :
    tx.issuance reason = some r ↔
      tx.type = .issuance ∧ issuanceDecode tx.record = .ok r ∧ r.reason = reason := by
  simp only [Transaction.issuance]
  split
  next htype =>
    split
    · next r' hdecode =>
        simp only [Option.ite_none_right_eq_some, Option.some.injEq, htype, hdecode,
          Except.ok.injEq, true_and]
        constructor
        · rintro ⟨hreason, rfl⟩
          exact ⟨rfl, hreason⟩
        · rintro ⟨rfl, hreason⟩
          exact ⟨hreason, rfl⟩
    · next hdecode => simp [hdecode]
  next htype => simp [htype]

/-- A transaction no pair round can consume has a round of its own. -/
theorem Applied.round_at {env : CandidateEnv} {pre post : List Bytes} {t : Bytes}
    {tx : Transaction} {s s' : ChainState} (h : Applied env (pre ++ t :: post) s s')
    (hdecode : transactionDecode t = .ok tx) (hevidence : tx.type ≠ .blockCompensationEvidence)
    (hissuance : tx.issuance issuanceReasonBlock = none) :
    ∃ before after, Applied env pre s before ∧ applyTransaction env tx before = .ok after ∧
      Applied env post after s' := by
  generalize hts : pre ++ t :: post = ts at h
  induction h generalizing pre with
  | nil => simp at hts
  | @single bytes tx' rest s s₁ s' hdecode' htype hstep hrest ih =>
      cases pre with
      | nil =>
          obtain ⟨rfl, rfl⟩ := List.cons_eq_cons.mp hts
          obtain rfl := Except.ok.inj (hdecode.symm.trans hdecode')
          exact ⟨s, s₁, .nil, hstep, hrest⟩
      | cons t' pre =>
          obtain ⟨rfl, htail⟩ := List.cons_eq_cons.mp hts
          obtain ⟨before, after, hpre, hround, hpost⟩ := ih htail
          exact ⟨before, after, .single hdecode' htype hstep hpre, hround, hpost⟩
  | @pair bytes next tx' rest s s₁ s' hdecode' htype hstep hrest ih =>
      rcases pre with _ | ⟨t', _ | ⟨t'', pre⟩⟩
      · obtain ⟨rfl, -⟩ := List.cons_eq_cons.mp hts
        obtain rfl := Except.ok.inj (hdecode.symm.trans hdecode')
        exact absurd htype hevidence
      · -- The second transaction of the pair is a block issuance.
        obtain ⟨-, htail⟩ := List.cons_eq_cons.mp hts
        obtain ⟨rfl, -⟩ := List.cons_eq_cons.mp htail
        obtain ⟨_, tx'', r, _, _, _, _, hdecode'', hissuanceType, hr, hreason, -⟩ :=
          applyPair_eq_ok hstep
        obtain rfl := Except.ok.inj (hdecode.symm.trans hdecode'')
        have hsome := issuance_eq_some_iff.mpr ⟨hissuanceType, hr, hreason⟩
        simp [hissuance] at hsome
      · obtain ⟨rfl, htail⟩ := List.cons_eq_cons.mp hts
        obtain ⟨rfl, htail'⟩ := List.cons_eq_cons.mp htail
        obtain ⟨before, after, hpre, hround, hpost⟩ := ih htail'
        exact ⟨before, after, .pair hdecode' htype hstep hpre, hround, hpost⟩

/-- While a block is validated after `past`, the transaction `tx`, which follows
the transactions `pre`, takes the candidate from `before` to `after`. -/
def RoundAt (c : ChainContext) (past : List Bytes) (bytes : Bytes) (pre : List Bytes)
    (tx : Transaction) (before after : ChainState) : Prop :=
  ∃ prior b flags candidate post s', Reaches c past prior ∧
    CandidatePrepared c prior bytes true b flags candidate ∧
    Applied (candidateEnv c prior (some past) b flags) pre candidate before ∧
    applyTransaction (candidateEnv c prior (some past) b flags) tx before = .ok after ∧
    Applied (candidateEnv c prior (some past) b flags) post after s' ∧
    Reaches c (past ++ [bytes]) s'

theorem Reaches.roundAt {c : ChainContext} {past rest : List Bytes} {bytes : Bytes}
    {s : ChainState} (h : Reaches c (past ++ bytes :: rest) s) {pre post : List Bytes}
    {t : Bytes} {tx : Transaction} (hblock : blockTransactions bytes = pre ++ t :: post)
    (hdecode : transactionDecode t = .ok tx) (hevidence : tx.type ≠ .blockCompensationEvidence)
    (hissuance : tx.issuance issuanceReasonBlock = none) :
    ∃ before after, RoundAt c past bytes pre tx before after := by
  obtain ⟨prior, s', hprior, hstep, hnext⟩ := h.step_at
  obtain ⟨b, flags, candidate, hprepared, happlied⟩ := reconstructStep_eq_ok_iff.mp hstep
  rw [← blockTransactions_of_decode hprepared.decode, hblock] at happlied
  obtain ⟨before, after, hpre, hround, hpost⟩ :=
    happlied.round_at hdecode hevidence hissuance
  exact ⟨before, after, prior, b, flags, candidate, post, s', hprior, hprepared, hpre, hround,
    hpost, hnext⟩

/-- Every transaction of a history that no pair round consumes has its round. -/
theorem Reaches.round_of_mem {c : ChainContext} {blocks : List Bytes} {s : ChainState}
    (h : Reaches c blocks s) {tx : Transaction} (htx : tx ∈ historyTransactions blocks)
    (hevidence : tx.type ≠ .blockCompensationEvidence)
    (hissuance : tx.issuance issuanceReasonBlock = none) :
    ∃ past bytes rest pre before after, blocks = past ++ bytes :: rest ∧
      RoundAt c past bytes pre tx before after := by
  obtain ⟨bytes, hbytes, htx⟩ := List.mem_flatMap.mp htx
  obtain ⟨t, ht, hdecode⟩ := mem_decodedTransactions.mp htx
  obtain ⟨past, rest, rfl⟩ := List.append_of_mem hbytes
  obtain ⟨pre, post, hblock⟩ := List.append_of_mem ht
  obtain ⟨before, after, hround⟩ := h.roundAt hblock hdecode hevidence hissuance
  exact ⟨past, bytes, rest, pre, before, after, rfl, hround⟩

/-! ## Properties of the components -/

/-- A property of the components that candidates inherit and every round keeps. -/
structure Preserved (Q : ChainState → Prop) : Prop where
  inherit {prior candidate : ChainState} : ComponentsOf prior candidate → Q prior → Q candidate
  single {env : CandidateEnv} {tx : Transaction} {s s' : ChainState} :
    applyTransaction env tx s = .ok s' → Q s → Q s'
  pair {env : CandidateEnv} {tx : Transaction} {next : Bytes} {s s' : ChainState} :
    applyPair env tx next s = .ok s' → Q s → Q s'

theorem Applied.preserves {Q : ChainState → Prop} (hQ : Preserved Q) {env : CandidateEnv}
    {ts : List Bytes} {s s' : ChainState} (h : Applied env ts s s') (hs : Q s) : Q s' := by
  induction h with
  | nil => exact hs
  | single _ _ hstep _ ih => exact ih (hQ.single hstep hs)
  | pair _ _ hstep _ ih => exact ih (hQ.pair hstep hs)

theorem Reaches.preserves {Q : ChainState → Prop} (hQ : Preserved Q) {c : ChainContext}
    (hinit : ∀ activation, Q (emptyState c activation)) {blocks : List Bytes} {s : ChainState}
    (h : Reaches c blocks s) : Q s := by
  refine h.invariant (P := fun _ s => Q s) ?_ ?_
  · intro s hs
    obtain ⟨-, activation, -, rfl⟩ := chainInitialize_eq_ok hs
    exact hinit activation
  · intro past s bytes b flags candidate s' _ hs hprepared happlied
    obtain ⟨-, -, -, -, -, -, hinherit⟩ := hprepared.next_state
    exact happlied.preserves hQ (hQ.inherit hinherit hs)

/-- What is preserved stays true as a history grows. -/
theorem Reaches.preserves_from {Q : ChainState → Prop} (hQ : Preserved Q) {c : ChainContext}
    {past rest : List Bytes} {s t : ChainState} (hs : Reaches c past s)
    (ht : Reaches c (past ++ rest) t) (h : Q s) : Q t := by
  induction rest using List.reverseRecOn generalizing t with
  | nil =>
      rw [List.append_nil] at ht
      exact hs.unique ht ▸ h
  | append_singleton rest bytes ih =>
      rw [← List.append_assoc] at ht
      obtain ⟨u, hu, hstep⟩ := reaches_snoc_iff.mp ht
      obtain ⟨b, flags, candidate, hprepared, happlied⟩ := reconstructStep_eq_ok_iff.mp hstep
      obtain ⟨-, -, -, -, -, -, hinherit⟩ := hprepared.next_state
      exact happlied.preserves hQ (hQ.inherit hinherit (ih hu))

/-- The candidate before a round has every preserved property. -/
theorem RoundAt.before {Q : ChainState → Prop} (hQ : Preserved Q) {c : ChainContext}
    (hinit : ∀ activation, Q (emptyState c activation)) {past : List Bytes} {bytes : Bytes}
    {pre : List Bytes} {tx : Transaction} {before after : ChainState}
    (h : RoundAt c past bytes pre tx before after) : Q before := by
  obtain ⟨prior, b, flags, candidate, _, _, hprior, hprepared, hpre, -⟩ := h
  obtain ⟨-, -, -, -, -, -, hinherit⟩ := hprepared.next_state
  exact hpre.preserves hQ (hQ.inherit hinherit (hprior.preserves hQ hinit))

/-! ## Quantities read off the transactions -/

/-- A quantity that candidates inherit from their prior and every transaction of
a candidate advances by `op`. -/
structure Advances {M : Type} (g : ChainState → M) (op : M → Transaction → M) : Prop where
  inherit {prior candidate : ChainState} : ComponentsOf prior candidate → g candidate = g prior
  single {env : CandidateEnv} {tx : Transaction} {s s' : ChainState} :
    applyTransaction env tx s = .ok s' → g s' = op (g s) tx
  pair {env : CandidateEnv} {tx tx' : Transaction} {next : Bytes} {s s' : ChainState} :
    tx.type = .blockCompensationEvidence → transactionDecode next = .ok tx' →
    applyPair env tx next s = .ok s' → g s' = op (op (g s) tx) tx'

theorem Applied.fold {M : Type} {g : ChainState → M} {op : M → Transaction → M}
    (hg : Advances g op) {env : CandidateEnv} {ts : List Bytes} {s s' : ChainState}
    (h : Applied env ts s s') : g s' = (decodedTransactions ts).foldl op (g s) := by
  induction h with
  | nil => rfl
  | single hdecode _ hstep _ ih =>
      rw [ih, decodedTransactions_cons hdecode, List.foldl_cons, hg.single hstep]
  | pair hdecode htype hstep _ ih =>
      obtain ⟨_, tx', _, _, _, _, _, hdecode', -⟩ := applyPair_eq_ok hstep
      rw [ih, decodedTransactions_cons hdecode, decodedTransactions_cons hdecode',
        List.foldl_cons, List.foldl_cons, hg.pair htype hdecode' hstep]

/-- A quantity the transactions advance is their fold over its initial value. -/
theorem Reaches.fold {M : Type} {g : ChainState → M} {op : M → Transaction → M} {m : M}
    (hg : Advances g op) {c : ChainContext}
    (hinit : ∀ activation, g (emptyState c activation) = m)
    {blocks : List Bytes} {s : ChainState} (h : Reaches c blocks s) :
    g s = (historyTransactions blocks).foldl op m := by
  refine h.invariant (P := fun blocks s => g s = (historyTransactions blocks).foldl op m) ?_ ?_
  · intro s hs
    obtain ⟨-, activation, -, rfl⟩ := chainInitialize_eq_ok hs
    exact hinit activation
  · intro past s bytes b flags candidate s' _ hP hprepared happlied
    obtain ⟨-, -, -, -, -, -, hinherit⟩ := hprepared.next_state
    rw [historyTransactions_append, historyTransactions_singleton hprepared.decode,
      List.foldl_append, ← hP, happlied.fold hg, hg.inherit hinherit]

omit [Primitives] in
theorem foldl_log {κ : Type} (f : Transaction → Option κ) (txs : List Transaction)
    (log : List κ) :
    txs.foldl (fun log tx => log ++ (f tx).toList) log = log ++ txs.filterMap f := by
  induction txs generalizing log with
  | nil => simp
  | cons tx txs ih =>
      rw [List.foldl_cons, ih]
      cases hf : f tx <;> simp [hf]

/-- The transactions of a run append their entries to a log. -/
theorem Applied.log {κ : Type} {g : ChainState → List κ} {f : Transaction → Option κ}
    (hg : Advances g fun log tx => log ++ (f tx).toList) {env : CandidateEnv}
    {ts : List Bytes} {s s' : ChainState} (h : Applied env ts s s') :
    g s' = g s ++ (decodedTransactions ts).filterMap f := by
  rw [h.fold hg, foldl_log]

/-- A log to which transactions append holds exactly their entries, in order. -/
theorem Reaches.log {κ : Type} {g : ChainState → List κ} {f : Transaction → Option κ}
    (hg : Advances g fun log tx => log ++ (f tx).toList) {c : ChainContext}
    (hinit : ∀ activation, g (emptyState c activation) = []) {blocks : List Bytes}
    {s : ChainState} (h : Reaches c blocks s) :
    g s = (historyTransactions blocks).filterMap f := by
  rw [h.fold hg hinit, foldl_log, List.nil_append]

/-! ## A sample history -/

/-- An accepted history is accepted up to each of its blocks. -/
theorem Accepts.front {c : ChainContext} {past rest : List Bytes} {s : ChainState}
    (h : Accepts c (past ++ rest) s) (hpast : past ≠ []) : ∃ t, Accepts c past t := by
  obtain ⟨-, s₀, hinit, hreach⟩ := accepts_iff.mp h
  obtain ⟨t, ht⟩ := hreach.of_append
  exact ⟨t, accepts_iff.mpr ⟨hpast, s₀, hinit, ht⟩⟩

/-- A check of the state that reconstruction computes. -/
theorem accepts_of_any (c : ChainContext) (blocks : List Bytes) (p : ChainState → Bool)
    (h : (chainReconstructHistory c blocks).2.any p = true) :
    ∃ s, Accepts c blocks s ∧ p s = true := by
  obtain ⟨s, hs, hp⟩ := (Option.any_eq_true _ _).mp h
  exact ⟨s, accepts_of_state (Prod.ext rfl hs), hp⟩

theorem accepts_of_isSome {c : ChainContext} {blocks : List Bytes}
    (h : (chainReconstructHistory c blocks).2.isSome = true) :
    ∃ s, Accepts c blocks s := by
  obtain ⟨s, hs⟩ := Option.isSome_iff_exists.mp h
  exact ⟨s, accepts_of_state (Prod.ext rfl hs)⟩

end StnChain

namespace StnChain.Sample

/-- SHA-256 of what validating the sample hashes, by residues modulo `2 ^ 61 - 1`. -/
def digests : List (ℕ × ℕ) :=
  [(0x198934e20c865bac,
      0x8cf0a03d8c643f9e788f962b991e5fee4068e1f0fdb18d9c99028136254bfd61),
   (0x1b061a1a55b95f34,
      0x0185754e6cb0e2105d77df55e63c43760b11d5bf9d9a21eb6faf5f3f1067b9a1),
   (0x5afb3d9ae59ce04,
      0x27b4d922aee1ecdbaaf7d44cccb2b52cceb0b3d8aff4fe3c322f04022e5b78ef),
   (0x1be28f4525f926eb,
      0x044448c3d66ec9bf1d6fdbecf4f7341adbda0bdb8a715aac1f0f65441525335e),
   (0x74d21c0c4620ed6,
      0x2f280448a8dc211655fd8911e25be794d33451f98593e5048e681db3e9b799c5),
   (0xa6e755f3f3fc4e1,
      0x7f36170e29b28cc81ba9eeb9d9d7605ceeceea552e4ed0ae8c53cea918f617c6),
   (0x1ea2f191334c34c8,
      0x92d2c5d2764ec5f440312a680765950e153867cbfc6cba74b824172c7a6725b4),
   (0x15398827ca02e97d,
      0x2717fcad08a3f0feca6551c2396f887fb27351f3b95865cfa967411cdcf9aa5d),
   (0x1631843fec64959f,
      0xa8e224e24294939cc041966845b2e34c2cefed6292d24948242cc6eb081d673e),
   (0x1a46a4c3b67f1cfa,
      0xdb5e9b2e8344d59a9f1c4ce6fc071dac8526845f243d6488eeaebceaef7d8b54),
   (0xefb59786b34d3b1,
      0x620cf369779992491b3c04edd2de7b2179de054be8bb166478c155373d53492a),
   (0x3f2f9638dea4246,
      0xc48ad8da485dbae5b8a265f6efc95ed81086a318a80d5ccd1ca5abb2dc24fc28),
   (0x1a898ffa24a0f6fa,
      0x8cc3d53614dcd67f0fb1af9625d79046f116a96dcce38676b680bf28545022d2),
   (0x3733ff47de8c52a,
      0x03865a8312047bb3470809190bed4a64e5fd82635812622b4c4d84f8ee78ab10),
   (0x16c8f9b73626734f,
      0xc24974013048c372bbc42f36bb4e46823380a5217dc5e8031328f96d99c66c49),
   (0x17006f405a0ef012,
      0x45bf5326098d2df7e91e5c8bfb222dc42dfdfbe6703030f92d37dfb416be2bb4),
   (0x18b786fa8be3ee1d,
      0xa7696a6ce8592e6223d19b521fb444cd7b05cc90f80492a96d224bf962bd2fbb),
   (0x992ee6a1363cb6,
      0x01bdba5f4a18dca6fc22971b4d0fc472a7a21ae9c4aeea1811b486d138ee9014),
   (0x6d2424a89df110e,
      0x5cd3c948de37c328613c5e8e29f9b0c70ad2955519ba248a7a85d7891b4a133d),
   (0xd5341a742afe0a6,
      0x034df22b859cecae17a849e7e803cd4c0ad6317db113e2171b6ed81d133943d9),
   (0x21445028171beab,
      0xa994845901e18760fbc1bea23488df303e2adf22e942b810f400e5ae58179a55),
   (0x49ad4f54c6d645b,
      0xf62d02d3902dff553ec5aed21127deba2238997dcc6d43b98b9dcd408d5f2e51),
   (0xbe47a31ec818811,
      0xa3550c55d6ce2620272c5f37f82a6050cee84607cec5335c472643a604cbdc66),
   (0x9215cb430f239fb,
      0x4bf95102fffc3a5d06194b7206e33d56d38b174b7b46874ad28d7c6abdabc4fe),
   (0x1db028f28514d660,
      0x061320d96476c847a2e68e15d8c751b8adbbbabb8da49bfe7289db6c0b2e4f33),
   (0x7798be96843ece1,
      0x73027bcd947c49bd0d4dee0d167202b6633b6fa75f88d74434428ee77381edb1),
   (0xa9adf87e321a2e4,
      0x3701c3642c6ddb3b7811463b9e49f96395c161937ae978d564c6e91d51bbcdc8),
   (0x192ebbce80484c25,
      0x559ec2e5bd6fb663a0ff0e46bc0d2888dd75066f7f92b7513c39d81b9b046c0e),
   (0xf3d9bb8fe8169bf,
      0x64c3e6d33df838a30fa30506e4c41bcfabb29a5eebda853278ff56f8bd45cad6),
   (0x1e7ec3a0dae659a2,
      0x42d0b7051195f35873921f157501e40785ff1cbf5d0f14fd40cd9ec9f80c68c4),
   (0x9af63fb2e859c5f,
      0x041db8fffc37f651805d1b44880af19b7ebadb9f3204b40085e98b8a5dac5fd8),
   (0x74d21c0c4602f16,
      0x9f9fc628e63c7a935f1cbb3cd7ad73f16040a0294a748d5e06564861fb636e83),
   (0xa6e755f3f3de529,
      0x176bcb4e2eaa466311ca367df48992768770cdcc7c2b70a2c0b54c84ea3f10ed),
   (0x85bd789ecf15c2d,
      0xccbded91ecbdd5037622b11c3a12a1a90cc7ea78d202ed35c5e212d2acc10a23),
   (0xc31b4556f828c43,
      0xfd00959d271f087f61ead522c72e75214c280967d9a49d8f4761d0992bc52c9a),
   (0xdabdf5c478f69aa,
      0x2fb1759f65246474bf867cd378164fc1cea3bb0713eb862a9da4bc9c7114ae4f),
   (0x1c7a78151b714a71,
      0x0528bea982590bcda491f2fd1da4165e0192b276d8a3479e4a54f66967767c7c)]

/-- SHA-256, as far as the sample asks for it. -/
def hash : HashFunction := fun domain bytes =>
  .ok (BitVec.ofNat 256 ((digests.lookup (BigEndian.read (domain ++ bytes) % (2 ^ 61 - 1))).getD 1))

/-- The sample carries no signatures. -/
@[reducible] def primitives : Primitives where
  sha256 := hash
  ed25519Verify _ _ _ := false

attribute [local instance] primitives

/-- The target of the sample's chain, `2 ^ 251`. -/
def target : Octets 32 := BitVec.ofNat 256 (2 ^ 251)

/-- The header of the sample at a height, one second after its parent's. -/
def header (previous : Octets 32) (height : UInt64) (commitment declared : Octets 32)
    (nonce : UInt64) (count bodyLength : UInt32) : BlockHeader where
  version := powBlockVersion
  flags := 0
  networkId := 0x1111111111111111111111111111111111111111111111111111111111111111
  previousHash := previous
  height
  timestamp := 1000 + height
  transactionCommitment := commitment
  reservedTarget := declared
  reservedWorkNonce := nonce
  transactionCount := count
  bodyLength

/-- A block of the sample. -/
def block (previous : Octets 32) (height : UInt64) (commitment : Octets 32) (nonce : UInt64)
    (transactions : List Bytes) : Bytes :=
  let body := transactions.flatMap fun t => wireWrite 4 t.length ++ t
  blockHeaderBytes (header previous height commitment target nonce
    (UInt32.ofNat transactions.length) (UInt32.ofNat body.length)) ++ body

/-- A transaction of the sample. -/
def transaction (type : TransactionType) (record : Bytes) : Bytes :=
  [0x53, 0x54, 0x4e, 0x54] ++ wireWrite 2 1 ++ wireWrite 2 type.toWire ++
    wireWrite 4 record.length ++ record

/-- One miner and its wallet. -/
def alice : CompensationDestination :=
  ⟨⟨.identity, 0x0a0a0a0a0a0a0a0a0a0a0a0a0a0a0a0a0a0a0a0a0a0a0a0a0a0a0a0a0a0a0a0a⟩,
    ⟨.wallet, 0xaaaaaaaaaaaaaaaaaaaaaaaaaaaaaaaaaaaaaaaaaaaaaaaaaaaaaaaaaaaaaaaa⟩⟩

/-- Another miner and its wallet. -/
def bob : CompensationDestination :=
  ⟨⟨.identity, 0x0b0b0b0b0b0b0b0b0b0b0b0b0b0b0b0b0b0b0b0b0b0b0b0b0b0b0b0b0b0b0b0b⟩,
    ⟨.wallet, 0xbbbbbbbbbbbbbbbbbbbbbbbbbbbbbbbbbbbbbbbbbbbbbbbbbbbbbbbbbbbbbbbb⟩⟩

/-- The transaction that names a miner's wallet. -/
def destination (d : CompensationDestination) : Bytes :=
  transaction .compensationDestination
    ([1] ++ octetBytes d.miningIdentity.identifier ++ octetBytes d.wallet.identifier)

/-- The body commitment of the sample's work headers. -/
def workCommitment : Octets 32 :=
  0x6a19f0fb4be54511524bcd5b0c98b38da1ee049a39735c39311e10336024436f

/-- A miner's share of the work of height one on a parent. -/
def share (d : CompensationDestination) (workId previous declared : Octets 32) (nonce : UInt64) :
    Bytes :=
  transaction .shareEvidence ([2] ++ octetBytes workId ++
    octetBytes d.miningIdentity.identifier ++ wireWrite 8 nonce.toNat ++
    blockHeaderBytes (header previous 1 workCommitment declared 0 0 0) ++
    octetBytes workCommitment)

/-- An issuance of the sample. -/
def issuance (reason : UInt8) (units : UInt64) (evidenceId : Octets 32)
    (d : CompensationDestination) : Bytes :=
  transaction .issuance (issuanceBytes ⟨reason, units, evidenceId, d⟩)

/-- A miner's claim to the reward of a block. -/
def evidence (blockId : Octets 32) (d : CompensationDestination) : Bytes :=
  transaction .blockCompensationEvidence
    ([1] ++ octetBytes blockId ++ octetBytes d.miningIdentity.identifier)

/-- The identifier of the genesis block. -/
def genesisId : Octets 32 :=
  0x0185754e6cb0e2105d77df55e63c43760b11d5bf9d9a21eb6faf5f3f1067b9a1

/-- The identifier of the empty block. -/
def emptyId : Octets 32 :=
  0x044448c3d66ec9bf1d6fdbecf4f7341adbda0bdb8a715aac1f0f65441525335e

/-- The commitment to an empty body. -/
def emptyCommitment : Octets 32 :=
  0x8cf0a03d8c643f9e788f962b991e5fee4068e1f0fdb18d9c99028136254bfd61

/-- The genesis block. -/
def genesis : Bytes := block 0 0 emptyCommitment 2 []

/-- An empty block. -/
def empty : Bytes := block genesisId 1 emptyCommitment 10 []

/-- Two destinations, and one solved header as the share of two miners. -/
def shares : Bytes :=
  block emptyId 2
    0xa8e224e24294939cc041966845b2e34c2cefed6292d24948242cc6eb081d673e 12
    [destination alice, destination bob,
      share alice 0x2f280448a8dc211655fd8911e25be794d33451f98593e5048e681db3e9b799c5
        genesisId maxTarget 1,
      share bob 0x2f280448a8dc211655fd8911e25be794d33451f98593e5048e681db3e9b799c5
        genesisId maxTarget 1]

/-- The identifier of the first miner's share. -/
def aliceShareId : Octets 32 :=
  0x92d2c5d2764ec5f440312a680765950e153867cbfc6cba74b824172c7a6725b4

/-- The issuance for a share. -/
def shareIssuance : Bytes :=
  issuance issuanceReasonShare issuanceShareUnits aliceShareId alice

/-- The issuance for a share, and the reward of the empty block for one miner. -/
def rewards : Bytes :=
  block 0x03865a8312047bb3470809190bed4a64e5fd82635812622b4c4d84f8ee78ab10 3
    0x45bf5326098d2df7e91e5c8bfb222dc42dfdfbe6703030f92d37dfb416be2bb4 134
    [shareIssuance, evidence emptyId alice,
      issuance issuanceReasonBlock issuanceBlockUnits
        0xc24974013048c372bbc42f36bb4e46823380a5217dc5e8031328f96d99c66c49 alice]

/-- The same issuance again, and the reward of the empty block for the other miner. -/
def repeats : Bytes :=
  block 0x034df22b859cecae17a849e7e803cd4c0ad6317db113e2171b6ed81d133943d9 4
    0xf62d02d3902dff553ec5aed21127deba2238997dcc6d43b98b9dcd408d5f2e51 48
    [shareIssuance, evidence emptyId bob,
      issuance issuanceReasonBlock issuanceBlockUnits
        0xa994845901e18760fbc1bea23488df303e2adf22e942b810f400e5ae58179a55 bob]

/-- A destination, and a share that declares the required target. -/
def honest : Bytes :=
  block emptyId 2
    0xfd00959d271f087f61ead522c72e75214c280967d9a49d8f4761d0992bc52c9a 71
    [destination alice,
      share alice 0x9f9fc628e63c7a935f1cbb3cd7ad73f16040a0294a748d5e06564861fb636e83
        genesisId target 2]

/-- A share of height one on a parent of height one. -/
def stray : Bytes :=
  block emptyId 2
    0x64c3e6d33df838a30fa30506e4c41bcfabb29a5eebda853278ff56f8bd45cad6 13
    [share alice 0x73027bcd947c49bd0d4dee0d167202b6633b6fa75f88d74434428ee77381edb1
      emptyId target 0]

/-- The context of the sample. -/
def context : ChainContext where
  networkId := 0x1111111111111111111111111111111111111111111111111111111111111111
  genesisBytes := genesis
  genesisAuthorityRoots := []
  genesisInitialIdentities := []
  hashProvider := ⟨some hash⟩
  powPolicy := some ⟨target⟩

/-- The sample history. -/
def history : List Bytes := [genesis, empty, shares, rewards, repeats]

theorem accepts_history : ∃ s, Accepts context history s :=
  accepts_of_isSome (by decide +kernel)

/-- The sample history without its last block, and its first two blocks. -/
theorem accepts_front : (∃ s, Accepts context [genesis, empty, shares, rewards] s) ∧
    ∃ s, Accepts context [genesis, empty] s := by
  obtain ⟨s, hs⟩ := accepts_history
  have hsplit : history = [genesis, empty, shares, rewards] ++ [repeats] := rfl
  have hsplit' : history = [genesis, empty] ++ [shares, rewards, repeats] := rfl
  exact ⟨Accepts.front (hsplit ▸ hs) (by simp), Accepts.front (hsplit' ▸ hs) (by simp)⟩

theorem accepts_honest : ∃ s, Accepts context [genesis, empty, honest] s :=
  accepts_of_isSome (by decide +kernel)

end StnChain.Sample
