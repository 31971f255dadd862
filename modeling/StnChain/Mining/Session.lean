import Mathlib.Logic.Function.Basic
import StnChain.Mining.Handler

/-!
# Sessions of the mining service

Each session of `stn_mining.c` owns a suffix stage and lends it to the service for the
time of a request.  `staged_transfer` is about any number of sessions with requests in any
order: each stage holds what its own session has transferred and no request touches the
stage of another session.
-/

namespace StnChain

section

variable [Primitives] {σ : Type}

/-! ## Branches that leave the stage alone -/

variable {s : MiningService σ} {v : StorageView} {q : RpcMessage} {memory : Bytes} {capacity : ℕ}

theorem afterStorage_stage {o : StorageOutcome σ} {mask : List Bool} :
    (afterStorage s o mask).2.stage = s.stage := by
  unfold afterStorage
  split <;> rfl

theorem publishHistory_stage {current : ChainState} {held given : List Bytes} {plan : ReorgPlan} :
    (publishHistory s current held given plan).2.stage = s.stage := by
  unfold publishHistory
  split
  · rfl
  dsimp only
  split
  · rfl
  · exact afterStorage_stage

theorem publishPreferred_stage {current : ChainState} {held given : List Bytes}
    {fork : ForkReport × Option ReorgPlan} {notPreferred : RpcCode} :
    (publishPreferred s current held given fork notPreferred).2.stage = s.stage := by
  unfold publishPreferred
  split
  · rfl
  · rfl
  · rfl
  · exact publishHistory_stage
  · rfl

theorem historyOutcome_stage {r : RpcCode × MiningService σ} :
    (historyOutcome r memory capacity).service.stage = r.2.stage := by
  unfold historyOutcome
  split <;> rfl

theorem submitSuffixEvidence_stage :
    (submitSuffixEvidence s q memory capacity).service.stage = s.stage := by
  unfold submitSuffixEvidence
  dsimp only
  split
  · rfl
  split
  · rfl
  split
  · rfl
  split
  · rfl
  · rw [historyOutcome_stage, publishPreferred_stage]

theorem submitHistoryEvidence_stage :
    (submitHistoryEvidence s v q memory capacity).service.stage = s.stage := by
  unfold submitHistoryEvidence
  dsimp only
  split
  · rfl
  split
  · rfl
  · rw [historyOutcome_stage, publishPreferred_stage]

theorem extendHistory_stage {bytes : Bytes} : (extendHistory s v bytes).2.stage = s.stage := by
  unfold extendHistory
  split
  · rfl
  split
  · rfl
  · exact afterStorage_stage

theorem submitBlockEvidence_stage :
    (submitBlockEvidence s v q memory capacity).service.stage = s.stage := by
  unfold submitBlockEvidence
  split
  · rfl
  · rw [historyOutcome_stage, extendHistory_stage]

theorem miningAdmit_stage {bytes : Bytes} : (miningAdmit s v bytes).2.2.stage = s.stage := by
  unfold miningAdmit
  split <;> rfl

theorem submitTransaction_stage :
    (submitTransaction s v q memory capacity).service.stage = s.stage := by
  unfold submitTransaction
  split
  · rfl
  split
  · rfl
  · exact miningAdmit_stage

theorem submitIntelligence_stage {pool : PendingPool} :
    (submitIntelligence s pool v q memory capacity).service.stage = s.stage := by
  unfold submitIntelligence
  split <;> rfl

theorem submitShare_stage : (submitShare s v q memory).service.stage = s.stage := by
  unfold submitShare
  split
  · rfl
  split <;> rfl

theorem admitReward_stage {miner : Address} : (admitReward s miner).2.stage = s.stage := by
  unfold admitReward
  split
  · rfl
  split
  · rfl
  split <;> rfl

theorem extendByWork_stage {submitted : Bytes} {miner : Address} :
    (extendByWork s v submitted miner).2.stage = s.stage := by
  have hextend : (extendHistory s v submitted).2.stage = s.stage := extendHistory_stage
  unfold extendByWork
  split
  · next s' hs' =>
      rw [hs'] at hextend
      rw [admitReward_stage, hextend]
  · exact hextend

theorem submitWork_stage : (submitWork s v q memory capacity).service.stage = s.stage := by
  unfold submitWork
  split
  · rfl
  split
  · rfl
  split
  · rfl
  · rw [historyOutcome_stage, extendByWork_stage]

theorem templateTimeSelect_stage {header : BlockHeader} :
    (templateTimeSelect s v header).2.stage = s.stage := by
  have hselect : (selectTimestamp s v).2.stage = s.stage := by
    unfold selectTimestamp
    split <;> rfl
  unfold templateTimeSelect
  split
  · rfl
  split
  · next hnone =>
      rw [hnone] at hselect
      exact hselect
  · next hsome =>
      rw [hsome] at hselect
      exact hselect

theorem templateBuild_stage : (templateBuild s v).2.stage = s.stage := by
  unfold templateBuild
  split
  · rfl
  split
  · rfl
  next header _ =>
  have htime : (templateTimeSelect s v header).2.stage = s.stage := templateTimeSelect_stage
  split
  · next htime' =>
      rw [htime'] at htime
      exact htime
  · next htime' =>
      rw [htime'] at htime
      exact htime

theorem workRequest_stage : (workRequest s v q memory capacity).service.stage = s.stage := by
  have hbuild : (templateBuild s v).2.stage = s.stage := templateBuild_stage
  unfold workRequest
  split
  · exact submitShare_stage
  · exact submitWork_stage
  · unfold miningTemplate
    split
    · next hbuilt =>
        rw [hbuilt] at hbuild
        exact hbuild
    · next hbuilt =>
        rw [hbuilt] at hbuild
        exact hbuild
  · unfold miningContext
    dsimp only
    split
    · exact hbuild
    · rfl
  · unfold miningContext
    dsimp only
    split
    · exact hbuild
    · rfl
  · rfl

theorem pooledRequest_stage : (pooledRequest s v q memory capacity).service.stage = s.stage := by
  unfold pooledRequest
  split
  · rfl
  next s' hs' =>
  have hkept : s'.stage = s.stage := by
    unfold housekeeping at hs'
    split at hs'
    iterate 4
      · rw [Except.ok.inj hs']
    split at hs'
    · simp at hs'
    · rw [← Except.ok.inj hs']
  rw [← hkept]
  split
  · exact submitIntelligence_stage
  · rfl
  · exact workRequest_stage

theorem prepareSnapshot_stage : (prepareSnapshot s).2.stage = s.stage := by
  unfold prepareSnapshot
  split
  · rfl
  split
  · rfl
  dsimp only
  split
  · split <;> rfl
  · split <;> rfl
  · rfl

/-! ## The effect of a request on the stage -/

/-- What a request with this reply code makes of a stage. -/
inductive StageEffect (stage : SuffixStage) (q : RpcMessage) (code : Option RpcCode) :
    SuffixStage → Prop
  | kept (h : code = some .ok →
      q.methodOf ≠ some .suffixStageBegin ∧ q.methodOf ≠ some .suffixStageAppend) :
      StageEffect stage q code stage
  | ended (h : q.methodOf = some .suffixStageCommit ∨ q.methodOf = some .suffixStageAbort) :
      StageEffect stage q code .cleared
  | begun (stage' : SuffixStage) (hmethod : q.methodOf = some .suffixStageBegin)
      (hcode : code = some .ok) (hholds : stage'.Holds [])
      (hannounced : stage'.expectedCount = wireRead q.payload 4 4) :
      StageEffect stage q code stage'
  | appended (stage' : SuffixStage) (hmethod : q.methodOf = some .suffixStageAppend)
      (hcode : code = some .ok) (happend : stageAppend q.payload stage = (.ok, stage')) :
      StageEffect stage q code stage'

omit [Primitives] in
theorem stageAppend_failed {payload : Bytes} {stage : SuffixStage} {blocks : List Bytes}
    (h : stage = .cleared ∨ stage.Holds blocks) (hcode : (stageAppend payload stage).1 ≠ .ok) :
    (stageAppend payload stage).2 = stage := by
  rcases h with rfl | hholds
  · rw [stageAppend_of_inactive rfl]
  · exact (stageAppend_spec hholds payload).failed hcode

theorem stageCommit_effect (hmethod : q.methodOf = some .suffixStageCommit) :
    StageEffect s.stage q (stageCommit s v memory capacity).reply.code
      (stageCommit s v memory capacity).service.stage := by
  unfold stageCommit
  split
  · exact .kept fun _ => ⟨by simp [hmethod], by simp [hmethod]⟩
  · exact .ended (.inl hmethod)

/-- The branches over the loaded history. -/
theorem miningRequest_effect {blocks : List Bytes} (h : s.stage = .cleared ∨ s.stage.Holds blocks) :
    StageEffect s.stage q (miningRequest s v q memory capacity).reply.code
      (miningRequest s v q memory capacity).service.stage := by
  have hkept {code : Option RpcCode} {stage : SuffixStage} (hstage : stage = s.stage)
      (hbegin : q.methodOf ≠ some .suffixStageBegin)
      (happend : q.methodOf ≠ some .suffixStageAppend) : StageEffect s.stage q code stage := by
    rw [hstage]
    exact .kept fun _ => ⟨hbegin, happend⟩
  unfold miningRequest
  split
  iterate 6
    · next hmethod => exact hkept rfl (by simp [hmethod]) (by simp [hmethod])
  · next hmethod => exact .ended (.inr hmethod)
  · next hmethod =>
      rcases stageBegin_spec q.payload v.blocks.length s.stage with
        ⟨hcode, hstage⟩ | ⟨hcode, hholds, hannounced⟩
      · dsimp only [MiningOutcome.plain, RpcReply.plain]
        rw [hstage]
        exact .kept fun hok => absurd (Option.some.inj hok) hcode
      · exact .begun _ hmethod (congrArg some hcode) hholds hannounced
  · next hmethod =>
      by_cases hcode : (stageAppend q.payload s.stage).1 = .ok
      · exact .appended _ hmethod (congrArg some hcode) (Prod.ext hcode rfl)
      · dsimp only [MiningOutcome.plain, RpcReply.plain]
        rw [stageAppend_failed h hcode]
        exact .kept fun hok => absurd (Option.some.inj hok) hcode
  · next hmethod => exact stageCommit_effect hmethod
  · next hmethod => exact hkept submitSuffixEvidence_stage (by simp [hmethod]) (by simp [hmethod])
  · next hmethod => exact hkept submitHistoryEvidence_stage (by simp [hmethod]) (by simp [hmethod])
  · next hmethod => exact hkept submitBlockEvidence_stage (by simp [hmethod]) (by simp [hmethod])
  · next hmethod => exact hkept submitTransaction_stage (by simp [hmethod]) (by simp [hmethod])
  · exact hkept pooledRequest_stage (by assumption) (by assumption)

omit [Primitives] in
theorem storageCode_error_ne_ok (status : StorageStatus) : storageCode (.error status) ≠ .ok := by
  cases status <;> simp [storageCode]

theorem loadedRequest_effect {blocks : List Bytes} (h : s.stage = .cleared ∨ s.stage.Holds blocks) :
    StageEffect s.stage q (loadedRequest s q memory capacity).reply.code
      (loadedRequest s q memory capacity).service.stage := by
  have hprepared : (prepareSnapshot s).2.stage = s.stage := prepareSnapshot_stage
  have hcode : ∀ code, (prepareSnapshot s).1 = .error code → code ≠ .ok := by
    intro code hcode
    unfold prepareSnapshot at hcode
    split at hcode
    · simp at hcode
    split at hcode
    · rw [← Except.error.inj hcode]
      exact storageCode_error_ne_ok _
    dsimp only at hcode
    split at hcode
    · split at hcode
      · rw [← Except.error.inj hcode]
        simp
      · simp at hcode
    · split at hcode
      · rw [← Except.error.inj hcode]
        simp
      · simp at hcode
    · rw [← Except.error.inj hcode]
      exact storageCode_error_ne_ok _
  unfold loadedRequest
  split
  · next code s' hs' =>
      rw [hs'] at hprepared hcode
      rw [← hprepared]
      exact .kept fun hok => absurd (Option.some.inj hok) (hcode code rfl)
  next s' hs' =>
  rw [hs'] at hprepared
  have hprepared : s'.stage = s.stage := hprepared
  split
  · rw [← hprepared]
    exact .kept fun hok => absurd (Option.some.inj hok) (storageCode_error_ne_ok _)
  · next v device hload =>
      rw [← hprepared] at h ⊢
      exact miningRequest_effect (s := { s' with device }) h

/-- The effect of any request on a stage that is cleared or holds some blocks. -/
theorem miningHandle_effect {blocks : List Bytes}
    (h : s.stage = .cleared ∨ s.stage.Holds blocks) :
    StageEffect s.stage q (miningHandle s q memory capacity).reply.code
      (miningHandle s q memory capacity).service.stage := by
  unfold miningHandle
  split
  · exact .kept fun hok => absurd (Option.some.inj hok) (by simp)
  split
  · next hmethod =>
      split
      · exact .kept fun _ => ⟨by simp [hmethod], by simp [hmethod]⟩
      · exact .kept fun _ => ⟨by simp [hmethod], by simp [hmethod]⟩
  · next hmethod =>
      split
      · exact .kept fun _ => ⟨by simp [hmethod], by simp [hmethod]⟩
      · exact .kept fun _ => ⟨by simp [hmethod], by simp [hmethod]⟩
  · exact loadedRequest_effect h

/-! ## Sessions -/

/-- `stn_mining_session_handle`, by the stage of the session: the reply, the stage the
session keeps and the service. -/
def miningSessionHandle (service : MiningService σ) (stage : SuffixStage) (q : RpcMessage)
    (memory : Bytes) (capacity : ℕ) : RpcReply × SuffixStage × MiningService σ :=
  if service.stage.active then (.plain .unavailable memory, stage, service)
  else
    let o := miningHandle { service with stage } q memory capacity
    (o.reply, o.service.stage, { o.service with stage := .cleared })

/-- What a suffix transfer has announced and transferred, and whether its stage may be gone:
no transfer was begun, or its commit or its abort was asked for. -/
structure SuffixProgress where
  announced : ℕ
  blocks : List Bytes
  ended : Bool

/-- What an answered request does to a transfer: an accepted BEGIN starts it over, an
accepted APPEND adds the blocks it lists. -/
def SuffixProgress.advance (p : SuffixProgress) (e : RpcMessage × Option RpcCode) :
    SuffixProgress :=
  match e.1.methodOf, e.2 with
  | some .suffixStageBegin, some .ok => ⟨wireRead e.1.payload 4 4, [], false⟩
  | some .suffixStageAppend, some .ok =>
      { p with blocks := p.blocks ++
        ((evidenceBlocks (wireRead e.1.payload 4 4) (e.1.payload.drop 8)).getD []) }
  | some .suffixStageCommit, _ => { p with ended := true }
  | some .suffixStageAbort, _ => { p with ended := true }
  | _, _ => p

/-- The transfer a sequence of answered requests has come to. -/
def transferred (log : List (RpcMessage × Option RpcCode)) : SuffixProgress :=
  log.foldl SuffixProgress.advance ⟨0, [], true⟩

/-- A service with sessions, their stages, and the requests each has been answered. -/
structure SessionWorld (ι σ : Type) where
  service : MiningService σ
  stages : ι → SuffixStage
  log : ι → List (RpcMessage × Option RpcCode)

/-- A request of a session, with the memory for its reply. -/
structure SessionRequest (ι : Type) where
  session : ι
  message : RpcMessage
  memory : Bytes
  capacity : ℕ

variable {ι : Type} [DecidableEq ι]

/-- What the session of a request gets and leaves. -/
def SessionWorld.answer (w : SessionWorld ι σ) (r : SessionRequest ι) :
    RpcReply × SuffixStage × MiningService σ :=
  miningSessionHandle w.service (w.stages r.session) r.message r.memory r.capacity

/-- The world after a request. -/
def SessionWorld.step (w : SessionWorld ι σ) (r : SessionRequest ι) : SessionWorld ι σ where
  service := (w.answer r).2.2
  stages := Function.update w.stages r.session (w.answer r).2.1
  log := Function.update w.log r.session
    (w.log r.session ++ [(r.message, (w.answer r).1.code)])

/-- Sessions as `stn_mining_session_init` makes them. -/
def SessionWorld.init (ι : Type) (service : MiningService σ) : SessionWorld ι σ where
  service
  stages _ := .cleared
  log _ := []

/-- The world after a sequence of requests. -/
def SessionWorld.run (w : SessionWorld ι σ) (requests : List (SessionRequest ι)) :
    SessionWorld ι σ :=
  requests.foldl SessionWorld.step w

/-! ## Stages follow their transfers -/

omit [Primitives] in
/-- The blocks of an accepted append are read from its payload. -/
theorem evidenceBlocks_bodyBytes {added : List Bytes} (h : ∀ bytes ∈ added, BlockSized bytes) :
    evidenceBlocks added.length (bodyBytes added) = some added := by
  induction added with
  | nil => rfl
  | cons bytes added ih =>
      obtain ⟨hmin, hmax⟩ := h bytes List.mem_cons_self
      have hword : blockMaxSize < 256 ^ 4 := by
        decide
      have hread : wireRead (bodyBytes (bytes :: added)) 0 4 = bytes.length := by
        rw [bodyBytes_cons, List.append_assoc, wireRead_append_left (by simp)]
        exact wireRead_wireWrite (lt_of_le_of_lt hmax hword)
      have hlength : (bodyBytes (bytes :: added)).length =
          4 + bytes.length + (bodyBytes added).length := by
        simp [bodyBytes_cons]
        omega
      have hprefix : ¬ (bodyBytes (bytes :: added)).length < 4 := by
        omega
      have hsize : ¬ (bytes.length < blockHeaderSize ∨ bytes.length > blockMaxSize ∨
          bytes.length > (bodyBytes (bytes :: added)).length - 4) := by
        omega
      have hrest := ih fun b hb => h b (List.mem_cons_of_mem _ hb)
      simp only [List.length_cons, evidenceBlocks, hread, if_neg hprefix, if_neg hsize,
        drop_bodyBytes_cons, take_drop_bodyBytes_cons, hrest, Option.map_some]

/-- The stage holds what a transfer has come to, or the transfer has ended and the stage is
cleared. -/
def SuffixStage.Tracks (stage : SuffixStage) (p : SuffixProgress) : Prop :=
  (stage = .cleared ∧ p.ended) ∨ (stage.Holds p.blocks ∧ stage.expectedCount = p.announced)

variable {stage stage' : SuffixStage} {p : SuffixProgress} {code : Option RpcCode}

omit [Primitives] in
theorem SuffixStage.Tracks.holds (h : stage.Tracks p) :
    stage = .cleared ∨ stage.Holds p.blocks := by
  rcases h with ⟨hcleared, -⟩ | ⟨hholds, -⟩
  · exact .inl hcleared
  · exact .inr hholds

omit [Primitives] in
theorem SuffixStage.Tracks.ended (h : stage.Tracks p) : stage.Tracks { p with ended := true } := by
  rcases h with ⟨hcleared, -⟩ | hholds
  · exact .inl ⟨hcleared, rfl⟩
  · exact .inr hholds

omit [Primitives] in
/-- A request that leaves the stage as it was at most ends the transfer. -/
theorem SuffixStage.Tracks.kept (h : stage.Tracks p)
    (hother : code = some .ok →
      q.methodOf ≠ some .suffixStageBegin ∧ q.methodOf ≠ some .suffixStageAppend) :
    stage.Tracks (p.advance (q, code)) := by
  unfold SuffixProgress.advance
  split
  · next hmethod hcode => exact absurd hmethod (hother hcode).1
  · next hmethod hcode => exact absurd hmethod (hother hcode).2
  · exact h.ended
  · exact h.ended
  · exact h

omit [Primitives] in
theorem StageEffect.tracks (h : stage.Tracks p) (heffect : StageEffect stage q code stage') :
    stage'.Tracks (p.advance (q, code)) := by
  cases heffect with
  | kept hother => exact h.kept hother
  | ended hmethod =>
      left
      rcases hmethod with hmethod | hmethod <;> simp [SuffixProgress.advance, hmethod]
  | begun _ hmethod hcode hholds hannounced =>
      simp only [SuffixProgress.advance, hcode, hmethod]
      exact .inr ⟨hholds, hannounced⟩
  | appended _ hmethod hcode happend =>
      rcases h with ⟨rfl, -⟩ | ⟨hholds, hannounced⟩
      · rw [stageAppend_of_inactive rfl] at happend
        simp at happend
      have hspec := stageAppend_spec hholds q.payload
      rw [happend] at hspec
      obtain ⟨added, hcount, hlisted, hsized, hnew, hexpected⟩ := hspec.appended rfl
      have hread : evidenceBlocks (wireRead q.payload 4 4) (q.payload.drop 8) = some added := by
        rw [hlisted, ← hcount]
        exact evidenceBlocks_bodyBytes hsized
      simp only [SuffixProgress.advance, hcode, hmethod, hread]
      exact .inr ⟨hnew, hexpected.trans hannounced⟩

omit [Primitives] in
/-- A failed append leaves the stage alone. -/
theorem StageEffect.failed_append (heffect : StageEffect stage q code stage')
    (hmethod : q.methodOf = some .suffixStageAppend) (hcode : code ≠ some .ok) :
    stage' = stage := by
  cases heffect with
  | kept _ => rfl
  | ended h => simp [hmethod] at h
  | begun _ hbegin => simp [hmethod] at hbegin
  | appended _ _ hok => exact absurd hok hcode

variable {w : SessionWorld ι σ}

/-- No stage is lent, and the stage of each session follows its transfer. -/
structure SessionWorld.Separate (w : SessionWorld ι σ) : Prop where
  idle : w.service.stage.active = false
  tracks : ∀ i, (w.stages i).Tracks (transferred (w.log i))

omit [DecidableEq ι] in
/-- A request of a session affects the stage of that session. -/
theorem SessionWorld.Separate.effect (h : w.Separate) (r : SessionRequest ι) :
    StageEffect (w.stages r.session) r.message (w.answer r).1.code (w.answer r).2.1 := by
  have hhandle : StageEffect (w.stages r.session) r.message
      (miningHandle { w.service with stage := w.stages r.session } r.message r.memory
        r.capacity).reply.code
      (miningHandle { w.service with stage := w.stages r.session } r.message r.memory
        r.capacity).service.stage :=
    miningHandle_effect (s := { w.service with stage := w.stages r.session })
      (h.tracks r.session).holds
  simp only [SessionWorld.answer, miningSessionHandle, h.idle, Bool.false_eq_true, if_false]
  exact hhandle

omit [DecidableEq ι] in
theorem SessionWorld.Separate.idle_after (h : w.Separate) (r : SessionRequest ι) :
    (w.answer r).2.2.stage.active = false := by
  simp only [SessionWorld.answer, miningSessionHandle, h.idle, Bool.false_eq_true, if_false]
  rfl

theorem SessionWorld.Separate.step (h : w.Separate) (r : SessionRequest ι) :
    (w.step r).Separate where
  idle := h.idle_after r
  tracks := by
    intro i
    by_cases hi : i = r.session
    · subst hi
      simp only [SessionWorld.step, Function.update_self, transferred, List.foldl_append,
        List.foldl_cons, List.foldl_nil]
      exact (h.effect r).tracks (h.tracks r.session)
    · simp only [SessionWorld.step, Function.update_of_ne hi]
      exact h.tracks i

theorem SessionWorld.Separate.run (h : w.Separate) (requests : List (SessionRequest ι)) :
    (w.run requests).Separate := by
  induction requests generalizing w with
  | nil => exact h
  | cons r requests ih => exact ih (h.step r)

/-- After any requests of any sessions each stage holds exactly the blocks its own session
has transferred since it began, in order and within all limits, or is cleared after that
session ended the transfer; a failed append leaves every stage alone, a request leaves the
stages of other sessions alone, and what it answers and does to the service does not depend
on them. -/
theorem staged_transfer (service : MiningService σ) (hidle : service.stage.active = false)
    (requests : List (SessionRequest ι)) :
    let w := (SessionWorld.init ι service).run requests
    (∀ i, let p := transferred (w.log i)
      (w.stages i = .cleared ∧ p.ended = true) ∨
      ((w.stages i).active = true ∧
        (w.stages i).slots =
          p.blocks.map some ++ List.replicate (p.announced - p.blocks.length) none ∧
        (w.stages i).receivedCount = p.blocks.length ∧
        p.blocks.length ≤ p.announced ∧ p.announced ≤ 4096 ∧
        (w.stages i).receivedBytes = (p.blocks.map List.length).sum ∧
        (w.stages i).receivedBytes ≤ 64 * 1024 * 1024)) ∧
      ∀ r : SessionRequest ι,
        (r.message.methodOf = some .suffixStageAppend → (w.answer r).1.code ≠ some .ok →
          (w.step r).stages = w.stages) ∧
        (∀ i, i ≠ r.session → (w.step r).stages i = w.stages i) ∧
        ∀ stages : ι → SuffixStage, stages r.session = w.stages r.session →
          ({ w with stages }.answer r) = w.answer r := by
  intro w
  have hinit : (SessionWorld.init ι service).Separate := ⟨hidle, fun _ => .inl ⟨rfl, rfl⟩⟩
  have hw : w.Separate := hinit.run requests
  refine ⟨?_, fun r => ⟨?_, ?_, ?_⟩⟩
  · intro i p
    rcases hw.tracks i with hcleared | ⟨hholds, hannounced⟩
    · exact .inl hcleared
    · right
      have hannounced : (w.stages i).expectedCount = p.announced := hannounced
      rw [← hannounced]
      exact ⟨hholds.active, hholds.slots, hholds.count, hholds.announced, hholds.limit,
        hholds.bytes, hholds.bounded⟩
  · intro hmethod hcode
    have hkept : (w.answer r).2.1 = w.stages r.session :=
      (hw.effect r).failed_append hmethod hcode
    simp only [SessionWorld.step, hkept, Function.update_eq_self]
  · intro i hi
    exact Function.update_of_ne hi _ _
  · intro stages hstage
    simp only [SessionWorld.answer, hstage]

end

section Sample

attribute [local instance] Sample.storing

namespace Sample

/-- A service over a provider in memory that stores the genesis block. -/
def mining : MiningService (Option Bytes) where
  chain := storingContext
  sha256Selected := true
  sha256_of_selected _ := rfl
  storage := memory
  device := some (imageOf [genesis])
  neededBytes x := (x.getD []).length
  body := []
  transactionCount := 0
  snapshotCapacity := 4096
  templateCapacity := 4096
  workspace := ⟨4096, 4096⟩
  active := emptyState storingContext 0
  pending := none
  intelligence := none
  pendingBodyCapacity := 0
  ownsBuffers := false
  timestampNow := none
  clockCalls := 0
  lease := none
  stage := .cleared
  stackId := 0
  freed _ _ _ _ := 0

/-- A request of one of two sessions. -/
def stageRequest (session : Bool) (method : UInt16) (payload : Bytes) : SessionRequest Bool :=
  ⟨session, ⟨1, method, .ok, 7, payload⟩, List.replicate 128 0, 128⟩

/-- A session begins with two blocks and appends one, while the other begins with one. -/
def transfers : List (SessionRequest Bool) :=
  [stageRequest false 0x1009 (wireWrite 4 1 ++ wireWrite 4 2),
    stageRequest true 0x1009 (wireWrite 4 1 ++ wireWrite 4 1),
    stageRequest false 0x100a (wireWrite 4 0 ++ wireWrite 4 1 ++ bodyBytes [empty])]

end Sample

open Sample

theorem sample_staged_transfer :
    let w := (SessionWorld.init Bool mining).run transfers
    ((w.stages false).slots = [some empty, none] ∧ (w.stages false).active) ∧
      (w.step (stageRequest true 0x100c [])).stages false = w.stages false ∧
      (w.answer (stageRequest false 0x100a [])).1.code ≠ some .ok ∧
      (w.step (stageRequest false 0x100a [])).stages = w.stages := by
  obtain ⟨-, hstep⟩ := staged_transfer (ι := Bool) mining rfl transfers
  have hrefused : (((SessionWorld.init Bool mining).run transfers).answer
      (stageRequest false 0x100a [])).1.code ≠ some .ok := by
    decide +kernel
  exact ⟨by decide +kernel, (hstep _).2.1 false (by decide), hrefused,
    (hstep _).1 rfl hrefused⟩

end Sample

end StnChain
