import StnChain.Chain.StateOnly

/-!
# Runs with state alone

The loops of the fork, storage and query components that validate one block after
another with `stn_chain_validate_candidate`.  Along a history that reconstruction
accepts such a run follows it while every block is checkable from the state before
it, and is left unresolved at the first block that is not.
-/

namespace StnChain

variable [Primitives]

/-- One round of a loop over `stn_chain_validate_candidate`. -/
def stateStep (c : ChainContext) (_past : List Bytes) (s : ChainState) (bytes : Bytes) :
    Except ChainReport ChainState :=
  match chainValidateCandidate c s bytes with
  | (r, none) => .error r
  | (_, some s) => .ok s

/-- Every block is checkable on top of the block before it, the first one on top of
the identifier `tip`. -/
def checkableFrom (provider : HashProvider) : Octets 32 → List Bytes → Bool
  | _, [] => true
  | tip, bytes :: rest =>
      blockCheckable tip bytes &&
        match chainBlockId bytes provider with
        | .error _ => true
        | .ok id => checkableFrom provider id rest

theorem Reaches.tipId_snoc {c : ChainContext} {past : List Bytes} {bytes : Bytes}
    {s : ChainState} (h : Reaches c (past ++ [bytes]) s) :
    chainBlockId bytes c.hashProvider = .ok s.tipId :=
  h.tipOf.tipId past bytes rfl

/-- A run with state alone along an accepted history. -/
theorem Reaches.stateRun {c : ChainContext} {past rest : List Bytes} {s t u : ChainState}
    (hs : Reaches c past s) (hcontent : t.content = s.content)
    (hu : Reaches c (past ++ rest) u) (seen : List Bytes) :
    (checkableFrom c.hashProvider s.tipId rest = true →
      ∃ t', PastRun.run (stateStep c) seen t rest = .ok t' ∧ t'.content = u.content) ∧
    (checkableFrom c.hashProvider s.tipId rest = false →
      ∃ r, PastRun.run (stateStep c) seen t rest = .error r ∧ r.acceptance = .unresolved ∧
        r.detail = some .unresolved) := by
  induction rest generalizing past s t seen with
  | nil =>
      rw [List.append_nil] at hu
      obtain rfl := hs.unique hu
      exact ⟨fun _ => ⟨t, rfl, hcontent⟩, by simp [checkableFrom]⟩
  | cons bytes rest ih =>
      obtain ⟨s₁, s', hs₁, hstep, hs'⟩ := hu.step_at
      obtain rfl := hs.unique hs₁
      simp only [checkableFrom, hs'.tipId_snoc, PastRun.run, stateStep]
      cases hcheckable : blockCheckable s.tipId bytes with
      | false =>
          obtain ⟨r, hopen, hr⟩ := hs.stateOnly_unresolved hcontent hstep hcheckable
          simp [hopen, hr]
      | true =>
          obtain ⟨t', hvalid, hcontent'⟩ := hs.stateOnly_accepts hcontent hstep hcheckable
          simp only [hvalid, Bool.true_and]
          exact ih hs' hcontent' (by simpa using hu) _

/-! ## Where the prefix is missed -/

/-- What validation with state alone makes of a transaction that asks for the accepted prefix:
it leaves it unresolved, or it takes the tip for the parent of work on another block. -/
inductive PrefixGap
  | missing | misread
  deriving DecidableEq, Repr

/-- The gap at the parent of a work header. -/
def parentGap (env : CandidateEnv) (work : BlockHeader) : Option PrefixGap :=
  if work.height + 1 ≠ env.header.height ∨ work.previousHash ≠ env.prior.tipId then some .missing
  else if shareParent env work = .ok () then none
  else some .misread

/-- The gap a round meets, for every transaction but block-compensation evidence: at an issuance
for a share, or at share evidence, that has passed the checks before it. -/
def roundGap (env : CandidateEnv) (tx : Transaction) (s : ChainState) : Option PrefixGap :=
  match tx.type with
  | .issuance =>
      match issuanceDecode tx.record with
      | .error _ => none
      | .ok issuance =>
          if issuance.reason ≠ issuanceReasonShare then none
          else
            match compensationStateLookup s.compensation issuance.destination.miningIdentity with
            | .error _ => none
            | .ok mapped =>
                if mapped.identifier ≠ issuance.destination.wallet.identifier then none
                else some .missing
  | .shareEvidence =>
      match shareDecode tx.record with
      | .error _ => none
      | .ok share =>
          match blockHeaderDecode (octetBytes share.templateHeader) with
          | .error _ => none
          | .ok work => if !shareAdmissible env share work then none else parentGap env work
  | _ => none

/-- The gap a round of block-compensation evidence meets: at a block below the tip. -/
def pairGap (env : CandidateEnv) (tx : Transaction) : Option PrefixGap :=
  match blockCompensationDecode tx.record with
  | .error _ => none
  | .ok evidence =>
      if env.prior.hasTip ∧ env.prior.tipId = evidence.blockId then none else some .missing

/-- The first gap of the loop, up to the transaction that it refuses. -/
def loopGap (env : CandidateEnv) : List Bytes → ChainState → Option PrefixGap
  | [], _ => none
  | [bytes], s =>
      match transactionDecode bytes with
      | .error _ => none
      | .ok tx => roundGap env tx s
  | bytes :: next :: rest, s =>
      match transactionDecode bytes with
      | .error _ => none
      | .ok tx =>
          if tx.type = .blockCompensationEvidence then
            match pairGap env tx, applyPair env tx next s with
            | some gap, _ => some gap
            | none, .error _ => none
            | none, .ok s => loopGap env rest s
          else
            match roundGap env tx s, applyTransaction env tx s with
            | some gap, _ => some gap
            | none, .error _ => none
            | none, .ok s => loopGap env (next :: rest) s

/-- The first gap of a block on top of an accepted prefix. -/
def blockGap (c : ChainContext) (past : List Bytes) (s : ChainState) (bytes : Bytes) :
    Option PrefixGap :=
  match prepareCandidate c s bytes true with
  | .error _ => none
  | .ok (_, b, flags, candidate) =>
      loopGap (candidateEnv c s (some past) b flags) b.transactions candidate

/-- The first gap of some blocks on top of an accepted prefix, up to the block that
reconstruction refuses. -/
def suffixGap (c : ChainContext) (past : List Bytes) (s : ChainState) :
    List Bytes → Option PrefixGap
  | [] => none
  | bytes :: rest =>
      match blockGap c past s bytes, reconstructStep c past s bytes with
      | some gap, _ => some gap
      | none, .error _ => none
      | none, .ok next => suffixGap c (past ++ [bytes]) next rest

/-- A computation with state alone follows the one with the prefix unless it meets a gap, and a
missing prefix leaves it unresolved. -/
structure FollowsGap {α : Type} (gap : Option PrefixGap) (alone full : Except DataStatus α) :
    Prop where
  follows : gap = none → alone = full
  missing : gap = some .missing → alone = .error .unresolved

theorem applyShare_gap (env : CandidateEnv) {tx : Transaction} (htype : tx.type = .shareEvidence)
    (s : ChainState) :
    FollowsGap (roundGap env tx s) (applyShare env.stateOnly tx.record s.shares)
      (applyShare env tx.record s.shares) := by
  cases hshare : shareDecode tx.record with
  | error status =>
      exact ⟨fun _ => by simp only [applyShare, hshare], by simp [roundGap, htype, hshare]⟩
  | ok share =>
  cases hwork : blockHeaderDecode (octetBytes share.templateHeader) with
  | error status =>
      exact ⟨fun _ => by simp only [applyShare, hshare, hwork],
        by simp [roundGap, htype, hshare, hwork]⟩
  | ok work =>
  have hsame : shareAdmissible env.stateOnly share work = shareAdmissible env share work := rfl
  simp only [roundGap, htype, applyShare, hshare, hwork, hsame]
  cases hadmissible : shareAdmissible env share work with
  | false => exact ⟨fun _ => rfl, by simp⟩
  | true =>
  simp only [Bool.not_true, Bool.false_eq_true, ↓reduceIte, parentGap, shareParent_stateOnly]
  by_cases htip : work.height + 1 = env.header.height ∧ work.previousHash = env.prior.tipId
  · have hnear : ¬(work.height + 1 ≠ env.header.height ∨ work.previousHash ≠ env.prior.tipId) := by
      tauto
    rw [if_neg hnear, if_pos htip]
    refine ⟨fun hnone => ?_, fun hmissing => ?_⟩
    · split at hnone
      · next hparent => rw [hparent]
      · cases hnone
    · split at hmissing
      · cases hmissing
      · cases hmissing
  · have hfar : work.height + 1 ≠ env.header.height ∨ work.previousHash ≠ env.prior.tipId := by
      tauto
    rw [if_pos hfar, if_neg htip]
    exact ⟨by simp, fun _ => rfl⟩

theorem applyIssuance_gap (env : CandidateEnv) {tx : Transaction} (htype : tx.type = .issuance)
    (s : ChainState) :
    FollowsGap (roundGap env tx s)
      (applyIssuance env.stateOnly tx.record s.compensation s.economy.state)
      (applyIssuance env tx.record s.compensation s.economy.state) := by
  cases hissuance : issuanceDecode tx.record with
  | error status =>
      exact ⟨fun _ => by simp only [applyIssuance, hissuance], by simp [roundGap, htype, hissuance]⟩
  | ok issuance =>
  simp only [roundGap, htype, applyIssuance, hissuance]
  split
  · exact ⟨fun _ => rfl, by simp⟩
  cases hlookup : compensationStateLookup s.compensation issuance.destination.miningIdentity with
  | error status => exact ⟨fun _ => rfl, by simp⟩
  | ok mapped =>
  dsimp only
  split
  · exact ⟨fun _ => rfl, by simp⟩
  · exact ⟨by simp, fun _ => rfl⟩

omit [Primitives] in
theorem FollowsGap.map {α β : Type} {gap : Option PrefixGap} {alone full : Except DataStatus α}
    (h : FollowsGap gap alone full) (f : α → Except DataStatus β) :
    FollowsGap gap (alone >>= f) (full >>= f) := by
  refine ⟨fun hnone => ?_, fun hmissing => ?_⟩
  · rw [h.follows hnone]
  · rw [h.missing hmissing]
    rfl

theorem applyTransaction_gap (env : CandidateEnv) (tx : Transaction) (s : ChainState) :
    FollowsGap (roundGap env tx s) (applyTransaction env.stateOnly tx s)
      (applyTransaction env tx s) := by
  by_cases hissuance : tx.type = .issuance
  · simp only [applyTransaction, hissuance]
    exact (applyIssuance_gap env hissuance s).map _
  by_cases hshare : tx.type = .shareEvidence
  · simp only [applyTransaction, hshare]
    exact (applyShare_gap env hshare s).map _
  have hnone : roundGap env tx s = none := by
    unfold roundGap
    split
    · contradiction
    · contradiction
    · rfl
  rw [hnone, applyTransaction_stateOnly_of_type env hissuance hshare]
  exact ⟨fun _ => rfl, by simp⟩

/-- The tip of the prior state is an accepted block. -/
def CandidateEnv.AcceptsTip (env : CandidateEnv) : Prop :=
  env.prior.hasTip = true → blockAccepted env env.prior.tipId = .ok ()

theorem applyPair_gap {env : CandidateEnv} (htip : env.AcceptsTip) (tx : Transaction)
    (next : Bytes) (s : ChainState) :
    FollowsGap (pairGap env tx) (applyPair env.stateOnly tx next s) (applyPair env tx next s) := by
  simp only [pairGap, applyPair, applyBlockCompensation]
  cases hevidence : blockCompensationDecode tx.record with
  | error status => exact ⟨fun _ => rfl, by simp⟩
  | ok evidence =>
  have hstate : blockAccepted env.stateOnly evidence.blockId =
      if env.prior.hasTip ∧ env.prior.tipId = evidence.blockId then .ok ()
      else .error .unresolved := rfl
  by_cases hblock : env.prior.hasTip = true ∧ env.prior.tipId = evidence.blockId
  · have haccepted : blockAccepted env evidence.blockId = .ok () := hblock.2 ▸ htip hblock.1
    simp only [hstate, haccepted, if_pos hblock]
    exact ⟨fun _ => rfl, by simp⟩
  · simp only [hstate, if_neg hblock]
    exact ⟨by simp, fun _ => rfl⟩

theorem applyTransactions_gap {env : CandidateEnv} (htip : env.AcceptsTip) (ts : List Bytes)
    (s : ChainState) :
    FollowsGap (loopGap env ts s) (applyTransactions env.stateOnly ts s)
      (applyTransactions env ts s) := by
  induction ts, s using applyTransactions.induct env with
  | case1 s => exact ⟨fun _ => rfl, by simp [loopGap]⟩
  | case2 bytes s status hdecode =>
      simp only [loopGap, applyTransactions, hdecode]
      exact ⟨fun _ => rfl, by simp⟩
  | case3 bytes s tx hdecode =>
      simp only [loopGap, applyTransactions, hdecode]
      exact applyTransaction_gap env tx s
  | case4 bytes next rest s status hdecode =>
      simp only [loopGap, applyTransactions, hdecode]
      exact ⟨fun _ => rfl, by simp⟩
  | case5 bytes next rest s tx hdecode htype status hpair =>
      have hround := applyPair_gap htip tx next s
      simp only [loopGap, applyTransactions, hdecode, if_pos htype, hpair]
      rw [hpair] at hround
      cases hgap : pairGap env tx with
      | none => exact ⟨fun _ => by rw [hround.follows hgap], by simp⟩
      | some gap =>
          refine ⟨by simp, fun hmissing => ?_⟩
          rw [hround.missing (hgap.trans hmissing)]
  | case6 bytes next rest s tx hdecode htype s₁ hpair ih =>
      have hround := applyPair_gap htip tx next s
      simp only [loopGap, applyTransactions, hdecode, if_pos htype, hpair]
      rw [hpair] at hround
      cases hgap : pairGap env tx with
      | none =>
          rw [hround.follows hgap]
          exact ih
      | some gap =>
          refine ⟨by simp, fun hmissing => ?_⟩
          rw [hround.missing (hgap.trans hmissing)]
  | case7 bytes next rest s tx hdecode htype status hstep =>
      have hround := applyTransaction_gap env tx s
      simp only [loopGap, applyTransactions, hdecode, if_neg htype, hstep]
      rw [hstep] at hround
      cases hgap : roundGap env tx s with
      | none => exact ⟨fun _ => by rw [hround.follows hgap], by simp⟩
      | some gap =>
          refine ⟨by simp, fun hmissing => ?_⟩
          rw [hround.missing (hgap.trans hmissing)]
  | case8 bytes next rest s tx hdecode htype s₁ hstep ih =>
      have hround := applyTransaction_gap env tx s
      simp only [loopGap, applyTransactions, hdecode, if_neg htype, hstep]
      rw [hstep] at hround
      cases hgap : roundGap env tx s with
      | none =>
          rw [hround.follows hgap]
          exact ih
      | some gap =>
          refine ⟨by simp, fun hmissing => ?_⟩
          rw [hround.missing (hgap.trans hmissing)]

section Blocks

variable {c : ChainContext} {past : List Bytes} {s t : ChainState}

/-- A block without a gap is validated alike with and without the prefix; a missing prefix leaves
it unresolved. -/
theorem Reaches.validate_gap (hreach : Reaches c past s) (hcontent : t.content = s.content)
    (bytes : Bytes) :
    (blockGap c past s bytes = none →
      resultContent (validateCandidate c t none bytes false) =
        resultContent (validateCandidate c s (some past) bytes true)) ∧
    (blockGap c past s bytes = some .missing →
      ∃ r, validateCandidate c t none bytes false = .error r ∧ r.detail = some .unresolved) := by
  have halone := validateCandidate_content c hcontent none bytes true false
  unfold blockGap
  cases hprepare : prepareCandidate c s bytes true with
  | error r =>
      refine ⟨fun _ => halone.trans ?_, by simp⟩
      simp [validateCandidate, hprepare, bind, Except.bind]
  | ok p =>
  obtain ⟨r, b, flags, candidate⟩ := p
  obtain ⟨hprepared, -⟩ := prepareCandidate_iff.mp hprepare
  have htip : (candidateEnv c s (some past) b flags).AcceptsTip := fun htip => by
    simp [blockAccepted, candidateEnv, hreach.blockAccepted_tip htip]
  have hloop := applyTransactions_gap htip b.transactions candidate
  refine ⟨fun hnone => halone.trans ?_, fun hmissing => ?_⟩
  · have hsame : applyTransactions (candidateEnv c s none b flags) b.transactions candidate =
        applyTransactions (candidateEnv c s (some past) b flags) b.transactions candidate :=
      hloop.follows hnone
    simp only [validateCandidate, hprepare, bind, Except.bind, hprepared.apply_eq, hsame]
  · have hopen : applyTransactions (candidateEnv c s none b flags) b.transactions candidate =
        .error .unresolved := hloop.missing hmissing
    rw [hprepared.validate_error hopen] at halone
    cases hresult : validateCandidate c t none bytes false with
    | ok p => simp [resultContent, hresult, Except.map] at halone
    | error r' =>
        obtain rfl : r' = _ := by simpa [resultContent, hresult, Except.map] using halone
        exact ⟨_, rfl, rfl⟩

/-- A run without a gap follows reconstruction to its end, or fails where reconstruction fails
and for the same reason; a missing prefix leaves it unresolved. -/
theorem Reaches.gapRun (hs : Reaches c past s) (hcontent : t.content = s.content)
    (seen rest : List Bytes) :
    (suffixGap c past s rest = none →
      (∃ u t', PastRun.run (reconstructStep c) past s rest = .ok u ∧
        PastRun.run (stateStep c) seen t rest = .ok t' ∧ t'.content = u.content) ∨
      ∃ r r', PastRun.run (reconstructStep c) past s rest = .error r ∧
        PastRun.run (stateStep c) seen t rest = .error r' ∧ r'.detail = r.detail) ∧
    (suffixGap c past s rest = some .missing →
      ∃ r, PastRun.run (stateStep c) seen t rest = .error r ∧ r.detail = some .unresolved) := by
  induction rest generalizing past s t seen with
  | nil => exact ⟨fun _ => .inl ⟨s, t, rfl, rfl, hcontent⟩, by simp [suffixGap]⟩
  | cons bytes rest ih =>
      obtain ⟨hnone, hmissing⟩ := hs.validate_gap hcontent bytes
      simp only [suffixGap, PastRun.run, reconstructStep, stateStep, chainValidateCandidate]
      cases hgap : blockGap c past s bytes with
      | some gap =>
          refine ⟨by simp, fun hfirst => ?_⟩
          obtain ⟨r, hr, hdetail⟩ := hmissing (hgap.trans hfirst)
          simp only [hr, chainResult]
          exact ⟨r, rfl, hdetail⟩
      | none =>
          have hresult := hnone hgap
          rcases haware : validateCandidate c s (some past) bytes true with r | ⟨r, s'⟩
          · rcases hstate : validateCandidate c t none bytes false with r' | ⟨r', t'⟩
            · obtain rfl : r' = r := by
                simpa [resultContent, haware, hstate, Except.map] using hresult
              exact ⟨fun _ => .inr ⟨_, _, rfl, rfl, rfl⟩, by simp⟩
            · simp [resultContent, haware, hstate, Except.map] at hresult
          · rcases hstate : validateCandidate c t none bytes false with r' | ⟨r', t'⟩
            · simp [resultContent, haware, hstate, Except.map] at hresult
            · have hcontent' : t'.content = s'.content := by
                simp only [resultContent, haware, hstate, Except.map, Except.ok.injEq] at hresult
                exact congrArg Prod.snd hresult
              have hs' : Reaches c (past ++ [bytes]) s' :=
                reaches_snoc_iff.mpr ⟨s, hs, by simp [reconstructStep, haware]⟩
              exact ih hs' hcontent' _

end Blocks

end StnChain
