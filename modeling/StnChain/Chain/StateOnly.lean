import StnChain.Chain.Content
import StnChain.Chain.History

/-!
# Validation with and without the accepted prefix

`stn_chain_validate_candidate` sees the consensus state alone, reconstruction sees
the accepted prefix as well.  What reconstruction accepts, validation with state
alone accepts exactly when the block is checkable from the state, and leaves
unresolved otherwise; `stateOnly_agrees_iff` is the comparison the other way.
-/

namespace StnChain

section

variable [Primitives]

/-! ## What state alone can check -/

/-- The environment without its accepted prefix. -/
def CandidateEnv.stateOnly (env : CandidateEnv) : CandidateEnv :=
  { env with history := none }

/-- A transaction that names no earlier share, no work but that on the parent of
its block, and no block but that parent, which has the identifier `tip`. -/
def Transaction.checkable (height : UInt64) (tip : Octets 32) (tx : Transaction) : Bool :=
  match tx.type with
  | .issuance => (tx.issuance issuanceReasonShare).isNone
  | .shareEvidence =>
      match shareDecode tx.record with
      | .error _ => true
      | .ok share =>
          match blockHeaderDecode (octetBytes share.templateHeader) with
          | .error _ => true
          | .ok work => work.height + 1 = height && work.previousHash = tip
  | .blockCompensationEvidence =>
      match blockCompensationDecode tx.record with
      | .error _ => true
      | .ok evidence => tip = evidence.blockId
  | _ => true

/-- A block whose transactions are checkable on top of a block identifier. -/
def blockCheckable (tip : Octets 32) (bytes : Bytes) : Bool :=
  match blockDecode bytes with
  | .error _ => true
  | .ok b => (decodedTransactions b.transactions).all (·.checkable b.header.height tip)

theorem shareParent_stateOnly (env : CandidateEnv) (work : BlockHeader) :
    shareParent env.stateOnly work =
      if work.height + 1 = env.header.height ∧ work.previousHash = env.prior.tipId then .ok ()
      else .error .unresolved := by
  have hunfold : shareParent env.stateOnly work =
      if work.height + 1 ≠ env.header.height ∨ work.previousHash ≠ env.prior.tipId then
        .error .unresolved
      else .ok () := rfl
  rw [hunfold]
  by_cases h : work.height + 1 = env.header.height ∧ work.previousHash = env.prior.tipId
  · simp [h]
  · rw [if_neg h, if_pos (by tauto)]

/-- An issuance for a share is left open without the prefix. -/
theorem applyIssuance_stateOnly {env : CandidateEnv} {record : Bytes}
    {compensation : CompensationState} {economy economy' : EconomicState}
    (h : applyIssuance env record compensation economy = .ok economy') :
    applyIssuance env.stateOnly record compensation economy = .error .unresolved := by
  obtain ⟨r, mapped, blocks, hdecode, hreason, hlookup, hwallet, -⟩ := applyIssuance_eq_ok h
  simp [applyIssuance, CandidateEnv.stateOnly, hdecode, hreason, hlookup, hwallet]

theorem applyShare_stateOnly {env : CandidateEnv} {tx : Transaction} {height : UInt64}
    {tip : Octets 32} (hheight : env.header.height = height) (htip : env.prior.tipId = tip)
    (htype : tx.type = .shareEvidence) {shares shares' : ShareReplayState}
    (h : applyShare env tx.record shares = .ok shares') :
    applyShare env.stateOnly tx.record shares =
      if tx.checkable height tip then .ok shares' else .error .unresolved := by
  obtain ⟨share, work, hdecode, hwork, hadmissible, hparent, hconsume⟩ := applyShare_eq_ok h
  have hadmissible' : shareAdmissible env.stateOnly share work = true := hadmissible
  have hcheckable : tx.checkable height tip =
      decide (work.height + 1 = env.header.height ∧ work.previousHash = env.prior.tipId) := by
    simp [Transaction.checkable, htype, hdecode, hwork, hheight, htip]
  simp only [applyShare, hdecode, hwork, hadmissible', shareParent_stateOnly, hcheckable,
    decide_eq_true_eq, Bool.not_true, Bool.false_eq_true, ↓reduceIte]
  by_cases hcheck : work.height + 1 = env.header.height ∧ work.previousHash = env.prior.tipId
  · simp only [if_pos hcheck, hconsume]
  · simp only [if_neg hcheck]

theorem applyTransaction_stateOnly_of_type (env : CandidateEnv) {tx : Transaction}
    (hissuance : tx.type ≠ .issuance) (hshare : tx.type ≠ .shareEvidence) (s : ChainState) :
    applyTransaction env.stateOnly tx s = applyTransaction env tx s := by
  unfold applyTransaction
  split <;> first | rfl | contradiction

/-- What a round with the prefix at hand accepts, state alone accepts or leaves open. -/
theorem applyTransaction_stateOnly {env : CandidateEnv} {tx : Transaction} {s s' : ChainState}
    (h : applyTransaction env tx s = .ok s') :
    applyTransaction env.stateOnly tx s =
      if tx.checkable env.header.height env.prior.tipId then .ok s' else .error .unresolved := by
  have hother (hissuance : tx.type ≠ .issuance) (hshare : tx.type ≠ .shareEvidence)
      (hchecked : tx.checkable env.header.height env.prior.tipId = true) :
      applyTransaction env.stateOnly tx s = if tx.checkable env.header.height env.prior.tipId
        then .ok s' else .error .unresolved := by
    rw [if_pos hchecked, applyTransaction_stateOnly_of_type _ hissuance hshare, h]
  cases stepOf_of_applyTransaction h with
  | issuance htype hissuance =>
      obtain ⟨r, mapped, blocks, hdecode, hreason, -⟩ := applyIssuance_eq_ok hissuance
      have hsome := issuance_eq_some_iff.mpr ⟨htype, hdecode, hreason⟩
      simp only [Transaction.checkable, htype, hsome, applyTransaction,
        applyIssuance_stateOnly hissuance]
      rfl
  | share htype hshare =>
      simp only [applyTransaction, htype, applyShare_stateOnly rfl rfl htype hshare]
      split <;> rfl
  | transfer htype _ => exact hother (by simp [htype]) (by simp [htype]) (by
      simp [Transaction.checkable, htype])
  | destination htype _ => exact hother (by simp [htype]) (by simp [htype]) (by
      simp [Transaction.checkable, htype])
  | contract htype _ => exact hother (by simp [htype]) (by simp [htype]) (by
      simp [Transaction.checkable, htype])
  | lifecycle htype _ =>
      cases hcase : tx.type <;> simp only [hcase, TransactionType.isLifecycle, Bool.false_eq_true]
        at htype
      all_goals exact hother (by simp [hcase]) (by simp [hcase]) (by
        simp [Transaction.checkable, hcase])

/-- A pair round depends on its environment through the block it is evidence for. -/
theorem applyPair_congr {env env' : CandidateEnv} {tx : Transaction}
    (h : ∀ evidence, blockCompensationDecode tx.record = .ok evidence →
      blockAccepted env evidence.blockId = blockAccepted env' evidence.blockId)
    (next : Bytes) (s : ChainState) : applyPair env tx next s = applyPair env' tx next s := by
  simp only [applyPair, applyBlockCompensation]
  cases hdecode : blockCompensationDecode tx.record with
  | error status => rfl
  | ok evidence => simp only [h evidence hdecode]

theorem applyPair_stateOnly {env : CandidateEnv}
    (hprior : env.history ≠ some [] → env.prior.hasTip = true)
    {tx : Transaction} (htype : tx.type = .blockCompensationEvidence)
    {next : Bytes} {s s' : ChainState} (h : applyPair env tx next s = .ok s') :
    applyPair env.stateOnly tx next s =
      if tx.checkable env.header.height env.prior.tipId then .ok s' else .error .unresolved := by
  obtain ⟨evidence, _, _, _, _, hdecode, haccepted, -⟩ := applyPair_eq_ok h
  have hprior : env.prior.hasTip = true := by
    refine hprior fun hempty => ?_
    simp [blockAccepted, hempty, historyContains] at haccepted
  have hcheckable : tx.checkable env.header.height env.prior.tipId =
      decide (env.prior.tipId = evidence.blockId) := by
    simp [Transaction.checkable, htype, hdecode]
  have hstate : blockAccepted env.stateOnly evidence.blockId =
      if env.prior.tipId = evidence.blockId then .ok () else .error .unresolved := by
    simp [blockAccepted, CandidateEnv.stateOnly, hprior]
  by_cases htip : env.prior.tipId = evidence.blockId
  · rw [hcheckable, decide_eq_true htip, if_pos rfl, ← h]
    refine applyPair_congr (fun evidence' hdecode' => ?_) next s
    obtain rfl := Except.ok.inj (hdecode.symm.trans hdecode')
    rw [haccepted, hstate, if_pos htip]
  · simp [hcheckable, htip, applyPair, applyBlockCompensation, hdecode, hstate, bind, Except.bind]

/-- What the loop with the prefix at hand accepts, state alone accepts if every
transaction is checkable, and leaves open otherwise. -/
theorem Applied.stateOnly {env : CandidateEnv}
    (hprior : env.history ≠ some [] → env.prior.hasTip = true)
    {ts : List Bytes} {s s' : ChainState} (h : Applied env ts s s') :
    applyTransactions env.stateOnly ts s =
      if (decodedTransactions ts).all (·.checkable env.header.height env.prior.tipId) then .ok s'
      else .error .unresolved := by
  induction h with
  | nil => rfl
  | @single bytes tx rest s s₁ s' hdecode htype hstep hrest ih =>
      rw [applyTransactions_cons hdecode htype, applyTransaction_stateOnly hstep,
        decodedTransactions_cons hdecode, List.all_cons]
      cases tx.checkable env.header.height env.prior.tipId with
      | false => rfl
      | true => exact ih
  | @pair bytes next tx rest s s₁ s' hdecode htype hstep hrest ih =>
      obtain ⟨_, tx', issuance, _, _, _, _, hdecode', htype', hissuance, hreason, -⟩ :=
        applyPair_eq_ok hstep
      have hblock : tx'.checkable env.header.height env.prior.tipId = true := by
        have hshare : tx'.issuance issuanceReasonShare = none := by
          simp [Transaction.issuance, htype', hissuance, hreason, issuanceReasonBlock,
            issuanceReasonShare]
        simp [Transaction.checkable, htype', hshare]
      rw [applyTransactions_cons_pair hdecode htype, applyPair_stateOnly hprior htype hstep,
        decodedTransactions_cons hdecode, decodedTransactions_cons hdecode', List.all_cons,
        List.all_cons, hblock, Bool.true_and]
      cases tx.checkable env.header.height env.prior.tipId with
      | false => rfl
      | true => exact ih

/-! ## Blocks -/

/-- Validation with state alone, over any storage, of a candidate prepared for
reconstruction: its loop decides. -/
theorem CandidatePrepared.stateOnly {c : ChainContext} {prior prior' : ChainState}
    {bytes : Bytes} {b : Block} {flags : CandidateFlags} {candidate : ChainState}
    (h : CandidatePrepared c prior bytes true b flags candidate)
    (hprior : prior'.content = prior.content) :
    (∀ t, applyTransactions (candidateEnv c prior none b flags) b.transactions candidate = .ok t →
      ∃ t', chainValidateCandidate c prior' bytes = (acceptedReport c, some t') ∧
        t'.content = t.content) ∧
    ∀ status, applyTransactions (candidateEnv c prior none b flags) b.transactions candidate =
        .error status →
      ∃ r, chainValidateCandidate c prior' bytes = (r, none) ∧
        r.acceptance = failureAcceptance status ∧ r.detail = some status := by
  have hcontent := validateCandidate_content c hprior none bytes true false
  constructor
  · intro t ht
    have hvalid := validateCandidate_eq_ok_iff.mpr
      ⟨b, flags, candidate, h, applyTransactions_eq_ok_iff.mp ht, rfl⟩
    simp only [resultContent, hvalid] at hcontent
    cases hresult : validateCandidate c prior' none bytes false with
    | error r => simp [hresult, Except.map] at hcontent
    | ok p =>
        obtain ⟨r, t'⟩ := p
        obtain ⟨rfl, ht'⟩ : r = acceptedReport c ∧ t'.content = t.content := by
          simpa [hresult, Except.map] using hcontent
        exact ⟨t', by simp [chainValidateCandidate, chainResult, hresult], ht'⟩
  · intro status herror
    simp only [resultContent, h.validate_error herror] at hcontent
    cases hresult : validateCandidate c prior' none bytes false with
    | ok p => simp [hresult, Except.map] at hcontent
    | error r =>
        simp only [hresult, Except.map, Except.error.injEq] at hcontent
        refine ⟨r, by simp [chainValidateCandidate, chainResult, hresult], ?_⟩
        rw [hcontent]
        exact ⟨rfl, rfl⟩

theorem Reaches.prior_hasTip {c : ChainContext} {past : List Bytes} {prior : ChainState}
    (h : Reaches c past prior) (hpast : some past ≠ some []) : prior.hasTip = true :=
  h.tipOf.hasTip.mpr fun hnil => hpast (by rw [hnil])

/-- Validation with state alone accepts a checkable block that reconstruction accepts. -/
theorem Reaches.stateOnly_accepts {c : ChainContext} {past : List Bytes}
    {prior prior' s' : ChainState} {bytes : Bytes} (hreach : Reaches c past prior)
    (hprior : prior'.content = prior.content)
    (h : reconstructStep c past prior bytes = .ok s')
    (hcheckable : blockCheckable prior.tipId bytes = true) :
    ∃ t, chainValidateCandidate c prior' bytes = (acceptedReport c, some t) ∧
      t.content = s'.content := by
  obtain ⟨b, flags, candidate, hprepared, happlied⟩ := reconstructStep_eq_ok_iff.mp h
  have hloop := happlied.stateOnly hreach.prior_hasTip
  simp only [blockCheckable, hprepared.decode] at hcheckable
  exact (hprepared.stateOnly hprior).1 s' (hloop.trans (if_pos hcheckable))

/-- Validation with state alone leaves every other block open. -/
theorem Reaches.stateOnly_unresolved {c : ChainContext} {past : List Bytes}
    {prior prior' s' : ChainState} {bytes : Bytes} (hreach : Reaches c past prior)
    (hprior : prior'.content = prior.content)
    (h : reconstructStep c past prior bytes = .ok s')
    (hcheckable : blockCheckable prior.tipId bytes = false) :
    ∃ r, chainValidateCandidate c prior' bytes = (r, none) ∧ r.acceptance = .unresolved ∧
      r.detail = some .unresolved := by
  obtain ⟨b, flags, candidate, hprepared, happlied⟩ := reconstructStep_eq_ok_iff.mp h
  have hloop := happlied.stateOnly hreach.prior_hasTip
  simp only [blockCheckable, hprepared.decode] at hcheckable
  exact (hprepared.stateOnly hprior).2 .unresolved
    (hloop.trans (if_neg (Bool.eq_false_iff.mp hcheckable)))

/-! ## What the prefix adds -/

/-- The tip of a history and the block before it have one identifier. -/
def TwinTip (c : ChainContext) (blocks : List Bytes) : Prop :=
  ∃ past parent tip, blocks = past ++ [parent, tip] ∧
    chainBlockId parent c.hashProvider = chainBlockId tip c.hashProvider

/-- The tip is an accepted block. -/
theorem Reaches.blockAccepted_tip {c : ChainContext} {past : List Bytes} {prior : ChainState}
    (h : Reaches c past prior) (htip : prior.hasTip = true) :
    historyContains prior.tipId c.hashProvider past = .ok true := by
  refine historyContains_of_mem (fun _ => h.blockId_of_mem) ?_
  obtain ⟨rest, tip, rfl⟩ := (List.eq_nil_or_concat past).resolve_left (h.tipOf.hasTip.mp htip)
  exact ⟨tip, by simp, h.tipOf.tipId rest tip (by simp)⟩

section Prefix

variable {c : ChainContext} {past : List Bytes} {prior : ChainState} {bytes : Bytes} {b : Block}
  {flags : CandidateFlags} {candidate : ChainState} (hreach : Reaches c past prior)
  (hprepared : CandidatePrepared c prior bytes true b flags candidate)

include hreach hprepared

/-- With the prefix at hand, work on the tip is checked against the tip's parent. -/
theorem shareParent_of_stateOnly {work : BlockHeader} (hbelow : work.height < b.header.height)
    (hpositive : work.height ≠ 0)
    (hstate : shareParent (candidateEnv c prior none b flags) work = .ok ()) :
    shareParent (candidateEnv c prior (some past) b flags) work = .ok () ↔ TwinTip c past := by
  have hcheck : work.height + 1 = b.header.height ∧ work.previousHash = prior.tipId := by
    by_contra hne
    have hstate' : shareParent (candidateEnv c prior none b flags) work =
        if work.height + 1 = b.header.height ∧ work.previousHash = prior.tipId then .ok ()
        else .error .unresolved := shareParent_stateOnly (candidateEnv c prior none b flags) work
    rw [if_neg hne] at hstate'
    exact absurd (hstate'.symm.trans hstate) (by simp)
  obtain ⟨hheight, hprevious⟩ := hcheck
  have hlength := hprepared.height_eq hreach.tipOf
  have hlt : work.height.toNat < b.header.height.toNat := UInt64.lt_iff_toNat_lt.mp hbelow
  have hne : work.height.toNat ≠ 0 := fun hzero => hpositive (UInt64.toNat_inj.mp hzero)
  have hsucc : b.header.height.toNat = work.height.toNat + 1 := by
    have := congrArg UInt64.toNat hheight
    rw [UInt64.toNat_add, UInt64.toNat_one] at this
    have := work.height.toNat_lt
    have := b.header.height.toNat_lt
    omega
  have hindex : (work.height - 1).toNat = past.length - 2 := by
    rw [UInt64.toNat_sub_of_le]
    · rw [UInt64.toNat_one]
      omega
    · exact UInt64.le_iff_toNat_le.mpr (by rw [UInt64.toNat_one]; omega)
  -- The history has a tip and a parent of it.
  obtain ⟨front, tip, rfl⟩ : ∃ front tip, past = front ++ [tip] := by
    have := (List.eq_nil_or_concat past).resolve_left (by rintro rfl; simp at hlength; omega)
    simpa using this
  obtain ⟨rest, parent, rfl⟩ : ∃ rest parent, front = rest ++ [parent] := by
    have := (List.eq_nil_or_concat front).resolve_left (by
      rintro rfl
      simp at hlength
      omega)
    simpa using this
  have htip : chainBlockId tip c.hashProvider = .ok prior.tipId :=
    hreach.tipOf.tipId (rest ++ [parent]) tip rfl
  obtain ⟨parentId, hparent⟩ := hreach.blockId_of_mem (by simp : parent ∈ _)
  have hget : (rest ++ [parent] ++ [tip])[(work.height - 1).toNat]? = some parent := by
    rw [hindex]
    simp
  have htwin : TwinTip c (rest ++ [parent] ++ [tip]) ↔ parentId = prior.tipId := by
    constructor
    · rintro ⟨rest', parent', tip', hsplit, hids⟩
      have hsplit' : rest ++ [parent, tip] = rest' ++ [parent', tip'] := by simpa using hsplit
      obtain ⟨-, hlast⟩ := List.append_inj' hsplit' rfl
      obtain ⟨rfl, rfl⟩ : parent = parent' ∧ tip = tip' := by simpa using hlast
      rw [hparent, htip] at hids
      exact Except.ok.inj hids
    · rintro rfl
      exact ⟨rest, parent, tip, by simp, hparent.trans htip.symm⟩
  rw [htwin]
  simp only [shareParent, candidateEnv, hget, hparent, hprevious]
  split <;> simp [*]

/-- What a round with state alone accepts, the prefix confirms, but for shares whose
work is on the tip. -/
theorem applyTransaction_of_stateOnly {tx : Transaction} {s s' : ChainState}
    (h : applyTransaction (candidateEnv c prior none b flags) tx s = .ok s') :
    applyTransaction (candidateEnv c prior (some past) b flags) tx s = .ok s' ↔
      tx.type ≠ .shareEvidence ∨ TwinTip c past := by
  have hother (hissuance : tx.type ≠ .issuance) (hshare : tx.type ≠ .shareEvidence) :
      applyTransaction (candidateEnv c prior (some past) b flags) tx s = .ok s' :=
    (applyTransaction_stateOnly_of_type _ hissuance hshare s).symm.trans h
  cases stepOf_of_applyTransaction h with
  | issuance _ hissuance =>
      obtain ⟨_, _, blocks, -, -, -, -, hhistory, -⟩ := applyIssuance_eq_ok hissuance
      exact absurd hhistory (by simp [candidateEnv])
  | share htype hshare =>
      obtain ⟨share, work, hdecode, hwork, hadmissible, hparent, hconsume⟩ :=
        applyShare_eq_ok hshare
      obtain ⟨hbelow, hpositive, -⟩ := shareAdmissible_spec hadmissible
      have hadmissible' :
          shareAdmissible (candidateEnv c prior (some past) b flags) share work = true :=
        hadmissible
      have hiff := shareParent_of_stateOnly hreach hprepared hbelow hpositive hparent
      simp only [htype, ne_eq, not_true_eq_false, false_or, ← hiff, applyTransaction, applyShare,
        hdecode, hwork, hadmissible', hconsume]
      cases shareParent (candidateEnv c prior (some past) b flags) work <;>
        simp [bind, Except.bind, pure, Except.pure]
  | transfer htype _ => simp [htype, hother (by simp [htype]) (by simp [htype])]
  | destination htype _ => simp [htype, hother (by simp [htype]) (by simp [htype])]
  | contract htype _ => simp [htype, hother (by simp [htype]) (by simp [htype])]
  | lifecycle htype _ =>
      have hshare : tx.type ≠ .shareEvidence := fun heq => by
        simp [heq, TransactionType.isLifecycle] at htype
      have hissuance : tx.type ≠ .issuance := fun heq => by
        simp [heq, TransactionType.isLifecycle] at htype
      simp [hshare, hother hissuance hshare]

omit hprepared in
theorem applyPair_of_stateOnly {tx : Transaction} {next : Bytes} {s s' : ChainState}
    (h : applyPair (candidateEnv c prior none b flags) tx next s = .ok s') :
    applyPair (candidateEnv c prior (some past) b flags) tx next s = .ok s' := by
  obtain ⟨evidence, _, _, _, _, hdecode, haccepted, -⟩ := applyPair_eq_ok h
  rw [← h]
  refine applyPair_congr (fun evidence' hdecode' => ?_) next s
  obtain rfl := Except.ok.inj (hdecode.symm.trans hdecode')
  rw [haccepted]
  have htip : prior.hasTip = true ∧ prior.tipId = evidence.blockId := by
    by_contra hne
    simp [blockAccepted, candidateEnv, hne] at haccepted
  simp [blockAccepted, candidateEnv, ← htip.2, hreach.blockAccepted_tip htip.1]

/-- What the loop accepts with state alone, the prefix confirms unless there is
share evidence, which it rejects on every history without a twin tip. -/
theorem Applied.of_stateOnly {ts : List Bytes} {s s' : ChainState}
    (h : Applied (candidateEnv c prior none b flags) ts s s') :
    Applied (candidateEnv c prior (some past) b flags) ts s s' ↔
      (∀ tx ∈ decodedTransactions ts, tx.type ≠ .shareEvidence) ∨ TwinTip c past := by
  induction h with
  | nil => simp [Applied.nil]
  | @single bytes tx rest s s₁ s' hdecode htype hstep hrest ih =>
      have hiff := applyTransaction_of_stateOnly hreach hprepared hstep
      have hsame (a : ChainState)
          (ha : applyTransaction (candidateEnv c prior (some past) b flags) tx s = .ok a) :
          a = s₁ := by
        have hstate := hstep.symm.trans (applyTransaction_stateOnly ha)
        split at hstate
        · exact (Except.ok.inj hstate).symm
        · simp at hstate
      rw [← applyTransactions_eq_ok_iff, applyTransactions_cons hdecode htype,
        decodedTransactions_cons hdecode, List.forall_mem_cons, bind_eq_ok_iff]
      constructor
      · rintro ⟨a, ha, hrest'⟩
        obtain rfl := hsame a ha
        have hhead := hiff.mp ha
        have htail := ih.mp (applyTransactions_eq_ok_iff.mp hrest')
        tauto
      · intro hcondition
        exact ⟨s₁, hiff.mpr (by tauto), applyTransactions_eq_ok_iff.mpr (ih.mpr (by tauto))⟩
  | @pair bytes next tx rest s s₁ s' hdecode htype hstep hrest ih =>
      obtain ⟨_, tx', _, _, _, _, _, hdecode', htype', -⟩ := applyPair_eq_ok hstep
      rw [← applyTransactions_eq_ok_iff, applyTransactions_cons_pair hdecode htype,
        applyPair_of_stateOnly hreach hstep, decodedTransactions_cons hdecode,
        decodedTransactions_cons hdecode', List.forall_mem_cons, List.forall_mem_cons]
      simp only [htype, htype', ne_eq, reduceCtorEq, not_false_eq_true, true_and]
      exact applyTransactions_eq_ok_iff.trans ih

end Prefix

theorem Reaches.accepts_snoc_iff {c : ChainContext} {blocks : List Bytes} {s s' : ChainState}
    (h : Reaches c blocks s) (bytes : Bytes) :
    Accepts c (blocks ++ [bytes]) s' ↔ reconstructStep c blocks s bytes = .ok s' := by
  rw [accepts_iff, reaches_snoc_iff]
  constructor
  · rintro ⟨-, t, ht, hstep⟩
    rwa [h.unique ht]
  · intro hstep
    exact ⟨by simp, s, h, hstep⟩

/-- A block accepted with state alone, as reconstruction prepares it. -/
theorem prepared_of_stateOnly {c : ChainContext} {s s' : ChainState} {bytes : Bytes}
    {r : ChainReport} (h : chainValidateCandidate c s bytes = (r, some s')) :
    ∃ b flags candidate t, CandidatePrepared c s bytes true b flags candidate ∧
      Applied (candidateEnv c s none b flags) b.transactions candidate t ∧
      t.content = s'.content := by
  have hcontent := validateCandidate_content c (rfl : s.content = s.content) none bytes false true
  cases hresult : validateCandidate c s none bytes false with
  | error r' => simp [chainValidateCandidate, chainResult, hresult] at h
  | ok p =>
      obtain ⟨rfl, rfl⟩ : p.1 = r ∧ p.2 = s' := by
        simpa [chainValidateCandidate, chainResult, hresult] using h
      cases hwhole : validateCandidate c s none bytes true with
      | error r' => simp [resultContent, hresult, hwhole, Except.map] at hcontent
      | ok q =>
          obtain ⟨b, flags, candidate, hprepared, happlied, -⟩ :=
            validateCandidate_eq_ok_iff.mp hwhole
          refine ⟨b, flags, candidate, q.2, hprepared, happlied, ?_⟩
          simp only [resultContent, hresult, hwhole, Except.map, Except.ok.injEq] at hcontent
          exact congrArg Prod.snd hcontent

/-- Reconstruction takes a further block as validation with state alone does, but
for share evidence on a history without a twin tip; what validation with state
alone refuses outright, reconstruction refuses. -/
theorem stateOnly_agrees_iff {c : ChainContext} {blocks : List Bytes} {s : ChainState}
    (h : Accepts c blocks s) (bytes : Bytes) :
    (∀ r s', chainValidateCandidate c s bytes = (r, some s') →
      ((∃ s'', Accepts c (blocks ++ [bytes]) s'' ∧ s''.content = s'.content) ↔
        (∀ tx ∈ historyTransactions [bytes], tx.type ≠ .shareEvidence) ∨ TwinTip c blocks)) ∧
    ∀ r, chainValidateCandidate c s bytes = (r, none) → r.acceptance ≠ .unresolved →
      ∀ s'', ¬Accepts c (blocks ++ [bytes]) s'' := by
  obtain ⟨-, hreach⟩ := accepts_iff.mp h
  constructor
  · intro r s' hstate
    obtain ⟨b, flags, candidate, t, hprepared, happlied, ht⟩ := prepared_of_stateOnly hstate
    rw [historyTransactions_singleton hprepared.decode,
      ← happlied.of_stateOnly hreach hprepared]
    constructor
    · rintro ⟨s'', haccepts, -⟩
      obtain ⟨b', flags', candidate', hprepared', happlied'⟩ :=
        reconstructStep_eq_ok_iff.mp ((hreach.accepts_snoc_iff bytes).mp haccepts)
      obtain ⟨rfl, rfl, rfl⟩ := hprepared.unique hprepared'
      have hloop := (applyTransactions_eq_ok_iff.mpr happlied).symm.trans
        (happlied'.stateOnly hreach.prior_hasTip)
      split at hloop
      · rwa [Except.ok.inj hloop]
      · simp at hloop
    · intro happlied'
      refine ⟨t, (hreach.accepts_snoc_iff bytes).mpr ?_, ht⟩
      exact reconstructStep_eq_ok_iff.mpr ⟨b, flags, candidate, hprepared, happlied'⟩
  · intro r hstate hresolved s'' haccepts
    have hstep := (hreach.accepts_snoc_iff bytes).mp haccepts
    cases hcheckable : blockCheckable s.tipId bytes with
    | true =>
        obtain ⟨t, hvalid, -⟩ := hreach.stateOnly_accepts rfl hstep hcheckable
        simp [hstate] at hvalid
    | false =>
        obtain ⟨r', hopen, hacceptance, -⟩ := hreach.stateOnly_unresolved rfl hstep hcheckable
        obtain rfl := (Prod.mk.inj (hstate.symm.trans hopen)).1
        exact hresolved hacceptance

end

section Sample

attribute [local instance] Sample.primitives

open Sample

/-- A share of height one on a parent of height one passes with state alone. -/
theorem sample_stateOnly_differs :
    ¬ ∀ (c : ChainContext) (blocks : List Bytes) (s : ChainState), Accepts c blocks s →
      ∀ (bytes : Bytes) (r : ChainReport) (s' : ChainState),
        chainValidateCandidate c s bytes = (r, some s') →
          ∃ s'', Accepts c (blocks ++ [bytes]) s'' ∧ s''.content = s'.content := by
  intro h
  obtain ⟨s, hs, hstate⟩ :=
    accepts_of_any context [genesis, empty]
      (fun s => (chainValidateCandidate context s stray).2.isSome) (by decide +kernel)
  rcases hresult : chainValidateCandidate context s stray with ⟨r, _ | s'⟩
  · rw [hresult] at hstate
    exact absurd hstate Bool.false_ne_true
  obtain ⟨s'', hs'', -⟩ := h context _ s hs stray r s' hresult
  have hrefused : (chainReconstructHistory context [genesis, empty, stray]).2 = none := by
    decide +kernel
  exact Option.some_ne_none s'' ((congrArg Prod.snd hs'').symm.trans hrefused)

theorem sample_stateOnly_agrees :
    ∃ s s', Accepts context [genesis] s ∧ (chainValidateCandidate context s empty).2 = some s' ∧
      ∃ s'', Accepts context [genesis, empty] s'' ∧ s''.content = s'.content := by
  obtain ⟨s, hs, hstate⟩ :=
    accepts_of_any context [genesis]
      (fun s => (chainValidateCandidate context s empty).2.isSome) (by decide +kernel)
  rcases hresult : chainValidateCandidate context s empty with ⟨r, _ | s'⟩
  · rw [hresult] at hstate
    exact absurd hstate Bool.false_ne_true
  have hshares : ∀ tx ∈ historyTransactions [empty], tx.type ≠ .shareEvidence := by
    decide +kernel
  exact ⟨s, s', hs, congrArg Prod.snd hresult,
    ((stateOnly_agrees_iff hs empty).1 r s' hresult).mpr (.inl hshares)⟩

end Sample

end StnChain
