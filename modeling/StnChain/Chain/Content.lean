import StnChain.Chain.Validate

/-!
# Chain states up to storage

How much room the lifecycle storage of a state has depends on how the state was
produced: reconstruction reuses its snapshot, other callers copy it for every
block.  The content of a state leaves the capacities out, and validation of a
candidate depends on the content of its prior alone (`validateCandidate_content`).
-/

namespace StnChain

variable [Primitives]

/-! ## Content -/

/-- A state over lifecycle storage of other capacities. -/
def ChainState.rebind (s : ChainState) (grants replays : ℕ) : ChainState :=
  { s with lifecycle := lifecycleRebind s.lifecycle grants replays }

/-- A state without the capacities of its lifecycle storage. -/
def ChainState.content (s : ChainState) : ChainState := s.rebind 0 0

omit [Primitives] in
@[simp]
theorem content_rebind (s : ChainState) (grants replays : ℕ) :
    (s.rebind grants replays).content = s.content := rfl

omit [Primitives] in
theorem content_eq_iff {s t : ChainState} :
    t.content = s.content ↔ ∃ grants replays, t = s.rebind grants replays := by
  constructor
  · intro h
    exact ⟨t.lifecycle.grantCapacity, t.lifecycle.replay.capacity,
      congrArg (·.rebind t.lifecycle.grantCapacity t.lifecycle.replay.capacity) h⟩
  · rintro ⟨grants, replays, rfl⟩
    rfl

omit [Primitives] in
theorem SameTip.of_content {s t : ChainState} (h : t.content = s.content) : SameTip s t := by
  obtain ⟨grants, replays, rfl⟩ := content_eq_iff.mp h
  exact .components

/-! ## The loop over other storage -/

theorem contractApplyTransaction_rebind (contracts : ContractSnapshot)
    (lifecycle : LifecycleState) (grants replays : ℕ) (tx : Transaction)
    (provider : HashProvider) :
    contractApplyTransaction contracts (lifecycleRebind lifecycle grants replays) tx provider =
      contractApplyTransaction contracts lifecycle tx provider := by
  have hscan (evidence : Option Bytes) (rest : List Bytes) :
      contractGrantScan (lifecycleRebind lifecycle grants replays) evidence provider rest =
        contractGrantScan lifecycle evidence provider rest := by
    induction rest with
    | nil => rfl
    | cons grant rest ih =>
        simp only [contractGrantScan, ih]
        rfl
  have hauthorized (action : ContractTransaction) (draft : Bytes) :
      contractAuthorized (lifecycleRebind lifecycle grants replays) action draft provider =
        contractAuthorized lifecycle action draft provider := by
    simp only [contractAuthorized, hscan]
    rfl
  simp only [contractApplyTransaction, contractApplyCreate, hauthorized]

/-- The room a transaction needs when the lifecycle component is handled at all. -/
def RoomFor (env : CandidateEnv) (s : ChainState) (grants replays : ℕ) : Prop :=
  env.hasLifecycle = true → s.lifecycle.Room grants replays

theorem applyLifecycle_rebind {env : CandidateEnv} {tx : Transaction} {s : ChainState}
    {grants replays : ℕ} (hroom : RoomFor env s tx.granted.length 1)
    (hroom' : RoomFor env (s.rebind grants replays) tx.granted.length 1) :
    applyLifecycle env tx (s.rebind grants replays).lifecycle =
      (applyLifecycle env tx s.lifecycle).map (lifecycleRebind · grants replays) := by
  have hstatus (p : LifecycleResult × LifecycleState) :
      lifecycleStatus (p.map id (lifecycleRebind · grants replays)) =
        (lifecycleStatus p).map (lifecycleRebind · grants replays) := by
    rcases p with ⟨_ | _, s⟩ <;> rfl
  simp only [applyLifecycle, ChainState.rebind]
  split
  · rfl
  next hlifecycle =>
  have henv : env.hasLifecycle = true := by simpa using hlifecycle
  split
  · rfl
  rw [lifecycleApplyTransaction_rebind (hroom henv) (hroom' henv),
    lifecycleCheckPublication_rebind (hroom henv) (hroom' henv), hstatus]
  by_cases htype : tx.type = .publication
  · simp only [htype, ↓reduceIte]
    cases lifecycleCheckPublication s.lifecycle tx.record env.context.hashProvider <;> rfl
  · simp only [htype, ↓reduceIte]

/-- A round does the same over lifecycle storage of any capacity. -/
theorem applyTransaction_rebind {env : CandidateEnv} {tx : Transaction} {s : ChainState}
    {grants replays : ℕ} (hroom : RoomFor env s tx.granted.length 1)
    (hroom' : RoomFor env (s.rebind grants replays) tx.granted.length 1) :
    applyTransaction env tx (s.rebind grants replays) =
      (applyTransaction env tx s).map (·.rebind grants replays) := by
  have hlifecycle := applyLifecycle_rebind hroom hroom'
  have hcontract := contractApplyTransaction_rebind s.contracts s.lifecycle grants replays tx
    env.context.hashProvider
  simp only [ChainState.rebind] at hlifecycle
  simp only [applyTransaction, ChainState.rebind]
  split
  · rfl
  · cases applyIssuance env tx.record s.compensation s.economy.state <;> rfl
  · cases applyTransfer tx.record s.economy <;> rfl
  · cases applyDestination tx.record s.compensation <;> rfl
  · rw [hcontract]
    cases contractApplyTransaction s.contracts s.lifecycle tx env.context.hashProvider <;> rfl
  · cases applyShare env tx.record s.shares <;> rfl
  all_goals
    rw [hlifecycle]
    cases applyLifecycle env tx s.lifecycle <;> rfl

theorem applyPair_rebind (env : CandidateEnv) (tx : Transaction) (next : Bytes) (s : ChainState)
    (grants replays : ℕ) :
    applyPair env tx next (s.rebind grants replays) =
      (applyPair env tx next s).map (·.rebind grants replays) := by
  simp only [applyPair, ChainState.rebind]
  cases applyBlockCompensation env tx next s.blockCompensation s.compensation
    s.economy.state <;> rfl

theorem applyTransaction_room {env : CandidateEnv} {tx : Transaction} {s s' : ChainState}
    (h : applyTransaction env tx s = .ok s') {m n : ℕ}
    (hroom : RoomFor env s (tx.granted.length + m) (n + 1)) : RoomFor env s' m n := by
  intro henv
  have hroom := hroom henv
  have hsame : s.lifecycle.Room m n := by
    constructor
    · have := hroom.grants
      omega
    · have := hroom.replays
      omega
  cases stepOf_of_applyTransaction h with
  | lifecycle _ hstep =>
      rcases applyLifecycle_eq_ok hstep with ⟨rfl, -⟩ | ⟨-, -, happly⟩
      · exact hsame
      · exact (lifecycleApplyTransaction_eq_ok happly).room hroom
  | _ => exact hsame

theorem applyPair_room {env : CandidateEnv} {tx : Transaction} {next : Bytes}
    {s s' : ChainState} (h : applyPair env tx next s = .ok s') {m n : ℕ}
    (hroom : RoomFor env s m n) : RoomFor env s' m n := by
  obtain ⟨-, -, -, -, -, -, -, -, -, -, -, -, -, -, rfl⟩ := applyPair_eq_ok h
  exact hroom

omit [Primitives] in
theorem RoomFor.mono {env : CandidateEnv} {s : ChainState} {m n m' n' : ℕ}
    (h : RoomFor env s m n) (hm : m' ≤ m) (hn : n' ≤ n) : RoomFor env s m' n' := by
  intro henv
  constructor
  · have := (h henv).grants
    omega
  · have := (h henv).replays
    omega

/-- The loop does the same over lifecycle storage of any capacity. -/
theorem applyTransactions_rebind {env : CandidateEnv} {ts : List Bytes} {s : ChainState}
    {grants replays : ℕ} (hroom : RoomFor env s ts.length ts.length)
    (hroom' : RoomFor env (s.rebind grants replays) ts.length ts.length) :
    applyTransactions env ts (s.rebind grants replays) =
      (applyTransactions env ts s).map (·.rebind grants replays) := by
  have hsingle (tx : Transaction) (s : ChainState) (n : ℕ) (hroom : RoomFor env s (n + 1) (n + 1))
      (hroom' : RoomFor env (s.rebind grants replays) (n + 1) (n + 1)) :=
    applyTransaction_rebind
      (hroom.mono (tx.length_granted_le.trans (Nat.le_add_left 1 n)) (Nat.le_add_left 1 n))
      (hroom'.mono (tx.length_granted_le.trans (Nat.le_add_left 1 n)) (Nat.le_add_left 1 n))
  induction ts, s using applyTransactions.induct env with
  | case1 s => rfl
  | case2 bytes s status hdecode => simp [applyTransactions, hdecode, Except.map]
  | case3 bytes s tx hdecode =>
      simp only [applyTransactions, hdecode]
      exact hsingle tx s 0 hroom hroom'
  | case4 bytes next rest s status hdecode => simp [applyTransactions, hdecode, Except.map]
  | case5 bytes next rest s tx hdecode htype status hpair =>
      simp [applyTransactions, hdecode, htype, applyPair_rebind, hpair, Except.map]
  | case6 bytes next rest s tx hdecode htype s₁ hpair ih =>
      have hpair' : applyPair env tx next (s.rebind grants replays) =
          .ok (s₁.rebind grants replays) := by
        rw [applyPair_rebind, hpair]
        rfl
      simp only [applyTransactions, hdecode, if_pos htype, hpair, hpair']
      have hle : rest.length ≤ (bytes :: next :: rest).length := by simp; omega
      exact ih ((applyPair_room hpair hroom).mono hle hle)
        ((applyPair_room hpair' hroom').mono hle hle)
  | case7 bytes next rest s tx hdecode htype status hstep =>
      have hstep' := hsingle tx s (next :: rest).length hroom hroom'
      rw [hstep] at hstep'
      simp only [applyTransactions, hdecode, if_neg htype, hstep, hstep']
      rfl
  | case8 bytes next rest s tx hdecode htype s₁ hstep ih =>
      have hstep' := hsingle tx s (next :: rest).length hroom hroom'
      rw [hstep] at hstep'
      simp only [applyTransactions, hdecode, if_neg htype, hstep, hstep']
      have hle : tx.granted.length + (next :: rest).length ≤ (bytes :: next :: rest).length := by
        have := tx.length_granted_le
        simp only [List.length_cons]
        omega
      exact ih (applyTransaction_room hstep (hroom.mono hle le_rfl))
        (applyTransaction_room hstep' (hroom'.mono hle le_rfl))

/-! ## The prior's content -/

/-- Two environments under which every transaction of a list does the same. -/
theorem applyTransactions_congr {env env' : CandidateEnv} {ts : List Bytes}
    (h : ∀ t ∈ ts, ∀ tx, transactionDecode t = .ok tx →
      (∀ s, applyTransaction env tx s = applyTransaction env' tx s) ∧
        (tx.type = .blockCompensationEvidence →
          ∀ next s, applyPair env tx next s = applyPair env' tx next s)) (s : ChainState) :
    applyTransactions env ts s = applyTransactions env' ts s := by
  induction ts, s using applyTransactions.induct env with
  | case1 s => rfl
  | case2 bytes s status hdecode => simp [applyTransactions, hdecode]
  | case3 bytes s tx hdecode =>
      simp only [applyTransactions, hdecode]
      exact (h bytes (by simp) tx hdecode).1 s
  | case4 bytes next rest s status hdecode => simp [applyTransactions, hdecode]
  | case5 bytes next rest s tx hdecode htype status hpair =>
      have hpair' := (h bytes (by simp) tx hdecode).2 htype next s
      simp only [applyTransactions, hdecode, if_pos htype, ← hpair', hpair]
  | case6 bytes next rest s tx hdecode htype s₁ hpair ih =>
      have hpair' := (h bytes (by simp) tx hdecode).2 htype next s
      simp only [applyTransactions, hdecode, if_pos htype, ← hpair', hpair]
      exact ih fun t ht => h t (by simp [ht])
  | case7 bytes next rest s tx hdecode htype status hstep =>
      have hstep' := (h bytes (by simp) tx hdecode).1 s
      simp only [applyTransactions, hdecode, if_neg htype, ← hstep', hstep]
  | case8 bytes next rest s tx hdecode htype s₁ hstep ih =>
      have hstep' := (h bytes (by simp) tx hdecode).1 s
      simp only [applyTransactions, hdecode, if_neg htype, ← hstep', hstep]
      exact ih fun t ht => h t (List.mem_cons_of_mem _ ht)

/-- The loop reads its prior's content only. -/
theorem applyTransactions_prior_rebind (c : ChainContext) (prior : ChainState)
    (grants replays : ℕ) (history : Option (List Bytes)) (b : Block) (flags : CandidateFlags)
    (ts : List Bytes) (s : ChainState) :
    applyTransactions (candidateEnv c (prior.rebind grants replays) history b flags) ts s =
      applyTransactions (candidateEnv c prior history b flags) ts s := by
  refine applyTransactions_congr (fun _ _ _ _ => ⟨fun _ => ?_, fun _ _ _ => ?_⟩) s
  · rfl
  · rfl

omit [Primitives] in
/-- The candidate of a prior has room for a block whatever storage it came from. -/
theorem candidateLifecycle_room {s : LifecycleState} {count : ℕ} {reconstruct : Bool}
    (hcount : count ≤ blockMaxTransactions) :
    (candidateLifecycle s count reconstruct).Room count count := by
  simp only [candidateLifecycle]
  split
  · next hreuse =>
      obtain ⟨-, hreuse⟩ := Bool.and_eq_true_iff.mp hreuse
      simp only [lifecycleReusable, Bool.and_eq_true, decide_eq_true_eq] at hreuse
      constructor <;> omega
  · constructor <;> simp [lifecycleClone, lifecycleRebind, cloneCapacity, hcount]

omit [Primitives] in
/-- The components of a candidate, less the capacities of its lifecycle storage. -/
theorem candidateComponents_content (flags : CandidateFlags) (count : ℕ)
    (reconstruct reconstruct' : Bool) (next : ChainState) (grants replays : ℕ) :
    (candidateComponents flags count reconstruct' (next.rebind grants replays)).map
        ChainState.content =
      (candidateComponents flags count reconstruct next).map ChainState.content := by
  have hlifecycle : lifecycleRebind (if flags.lifecycle then
        candidateLifecycle (lifecycleRebind next.lifecycle grants replays) count reconstruct'
      else lifecycleRebind next.lifecycle grants replays) 0 0 =
      lifecycleRebind (if flags.lifecycle then
        candidateLifecycle next.lifecycle count reconstruct else next.lifecycle) 0 0 := by
    simp only [candidateLifecycle]
    split_ifs <;> rfl
  simp only [candidateComponents, ChainState.rebind]
  cases cloneIf flags.shares shareClone next.shares with
  | none => rfl
  | some shares =>
  cases cloneIf flags.blockCompensation blockCompensationClone next.blockCompensation with
  | none => rfl
  | some blockCompensation =>
  cases cloneIf flags.compensation compensationClone next.compensation with
  | none => rfl
  | some compensation =>
  cases cloneIf flags.economy economicClone next.economy with
  | none => rfl
  | some economy =>
  cases cloneIf flags.contracts contractSnapshotClone next.contracts with
  | none => rfl
  | some contracts =>
      simp only [Option.bind_eq_bind, Option.bind_some, Option.pure_def, Option.map_some,
        ChainState.content, ChainState.rebind, hlifecycle]

theorem chainRequiredTarget_rebind (c : ChainContext) (s : ChainState) (grants replays : ℕ) :
    chainRequiredTarget c (s.rebind grants replays) = chainRequiredTarget c s := by
  have hconsistent (height : UInt64) (i : ℕ) (previous : Option UInt64)
      (rest : List BlockHeader) :
      targetHistoryConsistent (s.rebind grants replays) height i previous rest =
        targetHistoryConsistent s height i previous rest := by
    induction rest generalizing i previous with
    | nil => rfl
    | cons h rest ih =>
        simp only [targetHistoryConsistent, ih]
        rfl
  simp only [chainRequiredTarget, hconsistent]
  rfl

/-- What validation answers, less the capacities of lifecycle storage. -/
def resultContent (result : Except ChainReport (ChainReport × ChainState)) :
    Except ChainReport (ChainReport × ChainState) :=
  result.map (Prod.map id ChainState.content)

/-- A prepared candidate, less the capacities of its lifecycle storage. -/
def preparedContent (p : ChainReport × Block × CandidateFlags × ChainState) :
    ChainReport × Block × CandidateFlags × ChainState :=
  (p.1, p.2.1, p.2.2.1, p.2.2.2.content)

theorem prepareCandidate_content (c : ChainContext) (prior : ChainState) (grants replays : ℕ)
    (bytes : Bytes) (reconstruct reconstruct' : Bool) :
    (prepareCandidate c (prior.rebind grants replays) bytes reconstruct').map preparedContent =
      (prepareCandidate c prior bytes reconstruct).map preparedContent := by
  have hlink (b : Block) (r : ChainReport) :
      candidateLink c (prior.rebind grants replays) b bytes r = candidateLink c prior b bytes r :=
    rfl
  have htarget (b : Block) (r : ChainReport) :
      candidateTarget c (prior.rebind grants replays) b r = candidateTarget c prior b r := by
    simp only [candidateTarget, chainRequiredTarget_rebind]
  have hscan (height : UInt64) (ts : List Bytes) (flags : CandidateFlags) :
      scanBody c (prior.rebind grants replays) height ts flags =
        scanBody c prior height ts flags := by
    induction ts generalizing flags with
    | nil => rfl
    | cons t ts ih =>
        have hone : scanTransaction c (prior.rebind grants replays) height t flags =
            scanTransaction c prior height t flags := rfl
        simp only [scanBody, hone, ih]
  have hbody (b : Block) (r : ChainReport) :
      candidateBody c (prior.rebind grants replays) b bytes r =
        candidateBody c prior b bytes r := by
    simp only [candidateBody, hscan]
  have hnext (b : Block) (blockId : Octets 32) (r : ChainReport) :
      candidateNext c (prior.rebind grants replays) b blockId r =
        (candidateNext c prior b blockId r).map (Prod.map id (·.rebind grants replays)) := by
    simp only [candidateNext]
    split
    · rfl
    cases powCompare blockId b.header.reservedTarget with
    | error status => rfl
    | ok =>
        have hwork : candidateWork (prior.rebind grants replays) b = candidateWork prior b := rfl
        simp only [hwork]
        cases candidateWork prior b <;> rfl
  simp only [prepareCandidate, hlink, htarget, hbody, hnext]
  rcases candidateBlock c bytes with r | ⟨r, b⟩
  · rfl
  simp only [bind, Except.bind]
  rcases candidateLink c prior b bytes r with r | r
  · rfl
  dsimp only
  rcases candidateTarget c prior b r with r | r
  · rfl
  dsimp only
  rcases candidateBody c prior b bytes r with r | ⟨r, flags⟩
  · rfl
  dsimp only
  rcases candidateIdentifier c bytes r with r | ⟨r, blockId⟩
  · rfl
  dsimp only
  rcases candidateNext c prior b blockId r with r | ⟨r, next⟩
  · rfl
  have hcomponents := candidateComponents_content flags b.header.transactionCount.toNat
    reconstruct reconstruct' next grants replays
  simp only [Except.map, Prod.map, id_eq]
  cases hnew : candidateComponents flags b.header.transactionCount.toNat reconstruct'
    (next.rebind grants replays) <;>
  cases hold : candidateComponents flags b.header.transactionCount.toNat reconstruct next
  · rfl
  · simp [hnew, hold] at hcomponents
  · simp [hnew, hold] at hcomponents
  · simpa [hnew, hold, preparedContent] using hcomponents

/-- A candidate has room for its transactions. -/
theorem CandidatePrepared.room {c : ChainContext} {prior : ChainState} {bytes : Bytes}
    {reconstruct : Bool} {b : Block} {flags : CandidateFlags} {candidate : ChainState}
    (h : CandidatePrepared c prior bytes reconstruct b flags candidate)
    (history : Option (List Bytes)) :
    RoomFor (candidateEnv c prior history b flags) candidate b.transactions.length
      b.transactions.length := by
  intro hflag
  have hflag : flags.lifecycle = true := hflag
  obtain ⟨_, next, -, -, -, hcomponents⟩ := h.next
  simp only [candidateComponents, Option.bind_eq_bind, Option.bind_eq_some_iff] at hcomponents
  obtain ⟨_, -, _, -, _, -, _, -, _, -, hcandidate⟩ := hcomponents
  obtain rfl := Option.some.inj hcandidate
  simp only [hflag, ↓reduceIte, Block.length_transactions]
  exact candidateLifecycle_room (Block.count_le h.decode)

/-- Validation depends on the content of its prior, and not on how its copies of
the components are stored. -/
theorem validateCandidate_content (c : ChainContext) {prior prior' : ChainState}
    (hprior : prior'.content = prior.content) (history : Option (List Bytes)) (bytes : Bytes)
    (reconstruct reconstruct' : Bool) :
    resultContent (validateCandidate c prior' history bytes reconstruct') =
      resultContent (validateCandidate c prior history bytes reconstruct) := by
  obtain ⟨grants, replays, rfl⟩ := content_eq_iff.mp hprior
  have hprepare := prepareCandidate_content c prior grants replays bytes reconstruct reconstruct'
  cases hnew : prepareCandidate c (prior.rebind grants replays) bytes reconstruct' <;>
  cases hold : prepareCandidate c prior bytes reconstruct
  · next r r' =>
      obtain rfl : r = r' := by simpa [hnew, hold, Except.map] using hprepare
      simp only [validateCandidate, hnew, hold]
      rfl
  · simp [hnew, hold, Except.map] at hprepare
  · simp [hnew, hold, Except.map] at hprepare
  · next p p' =>
      obtain ⟨r, b, flags, candidate'⟩ := p
      obtain ⟨r', b', flags', candidate⟩ := p'
      obtain ⟨rfl, rfl, rfl, hcandidate⟩ :
          r = r' ∧ b = b' ∧ flags = flags' ∧ candidate'.content = candidate.content := by
        simpa [hnew, hold, Except.map, preparedContent] using hprepare
      obtain ⟨hprepared', -⟩ := prepareCandidate_iff.mp hnew
      obtain ⟨hprepared, -⟩ := prepareCandidate_iff.mp hold
      obtain ⟨grants', replays', rfl⟩ := content_eq_iff.mp hcandidate
      have hloop := applyTransactions_rebind (hprepared.room history) (hprepared'.room history)
      have happly := (hprepared'.apply_eq history).trans
        ((applyTransactions_prior_rebind c prior grants replays history b flags _ _).trans hloop)
      simp only [validateCandidate, hnew, hold, bind, Except.bind, happly, hprepared.apply_eq]
      cases applyTransactions (candidateEnv c prior history b flags) b.transactions candidate
        <;> rfl

end StnChain
