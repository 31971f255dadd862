import StnChain.Adopt
import StnChain.Chain.Targets
import Mathlib.Order.Bounds.Basic

/-!
# Exact fork choice

`stn_fork_evaluate_history` compares block identifiers, while a reorganization moves
blocks.  Where the hash provider has no collision among the blocks at hand the two
agree: the ancestor of a plan is the longest common prefix of the two histories, its
ranges rebuild the candidate, and the evaluation of the swapped histories is the
mirror image, so that never both sides are replaced.
-/

namespace StnChain

/-! ## Common prefixes -/

/-- The lengths of the common prefixes of two lists. -/
def commonLengths {α : Type} (l m : List α) : Set ℕ :=
  {k | k ≤ l.length ∧ k ≤ m.length ∧ l.take k = m.take k}

theorem commonLengths_comm {α : Type} (l m : List α) : commonLengths l m = commonLengths m l := by
  ext k
  constructor
  · rintro ⟨hl, hm, heq⟩
    exact ⟨hm, hl, heq.symm⟩
  · rintro ⟨hm, hl, heq⟩
    exact ⟨hl, hm, heq.symm⟩

theorem isGreatest_commonLengths_nil {α : Type} (m : List α) :
    IsGreatest (commonLengths [] m) 0 :=
  ⟨⟨le_rfl, Nat.zero_le _, rfl⟩, fun _ hk => hk.1⟩

theorem isGreatest_commonLengths_of_ne {α : Type} {a b : α} (h : a ≠ b) (l m : List α) :
    IsGreatest (commonLengths (a :: l) (b :: m)) 0 := by
  refine ⟨⟨Nat.zero_le _, Nat.zero_le _, rfl⟩, ?_⟩
  rintro k ⟨-, -, heq⟩
  cases k with
  | zero => exact le_rfl
  | succ k => exact absurd (List.cons.inj heq).1 h

theorem isGreatest_commonLengths_cons {α : Type} (a : α) {l m : List α} {n : ℕ}
    (h : IsGreatest (commonLengths l m) n) :
    IsGreatest (commonLengths (a :: l) (a :: m)) (n + 1) := by
  obtain ⟨⟨hl, hm, heq⟩, hgreatest⟩ := h
  refine ⟨⟨Nat.succ_le_succ hl, Nat.succ_le_succ hm, ?_⟩, ?_⟩
  · rw [List.take_succ_cons, List.take_succ_cons, heq]
  · rintro k ⟨hkl, hkm, hkeq⟩
    cases k with
    | zero => exact Nat.zero_le _
    | succ k =>
        rw [List.take_succ_cons, List.take_succ_cons] at hkeq
        exact Nat.succ_le_succ (hgreatest ⟨Nat.le_of_succ_le_succ hkl,
          Nat.le_of_succ_le_succ hkm, (List.cons.inj hkeq).2⟩)

section

variable [Primitives]

/-! ## Collisions -/

/-- The provider answers different messages of a list differently. -/
def CollisionFree (provider : HashProvider) (domain : Bytes) (messages : List Bytes) : Prop :=
  ∀ x ∈ messages, ∀ y ∈ messages, provider.digest domain x = provider.digest domain y → x = y

/-- The provider has no collision among the headers and bodies of some blocks. -/
structure BlocksCollisionFree (provider : HashProvider) (blocks : List Bytes) : Prop where
  headers : CollisionFree provider (cString "STN-CHAIN:BLOCK:ID:1")
    (blocks.map fun bytes => bytes.take blockHeaderSize)
  bodies : CollisionFree provider (cString "STN-CHAIN:BLOCK:BODY:1")
    (blocks.map fun bytes => bytes.drop blockHeaderSize)

omit [Primitives] in
theorem BlocksCollisionFree.comm {provider : HashProvider} {blocks blocks' : List Bytes}
    (h : BlocksCollisionFree provider (blocks ++ blocks')) :
    BlocksCollisionFree provider (blocks' ++ blocks) where
  headers x hx y hy := by
    rw [List.map_append, List.mem_append, or_comm, ← List.mem_append, ← List.map_append] at hx hy
    exact h.headers x hx y hy
  bodies x hx y hy := by
    rw [List.map_append, List.mem_append, or_comm, ← List.mem_append, ← List.map_append] at hx hy
    exact h.bodies x hx y hy

/-- A block whose body has the commitment of its header. -/
theorem blockCheckIntegrity_commitment {bytes : Bytes} {b : Block} {provider : HashProvider}
    (hdecode : blockDecode bytes = .ok b) (h : blockCheckIntegrity bytes provider = .ok ()) :
    provider.digest (cString "STN-CHAIN:BLOCK:BODY:1") b.body =
      .ok b.header.transactionCommitment := by
  simp only [blockCheckIntegrity, hdecode] at h
  split at h
  · simp at h
  split at h
  · simp at h
  next commitment hcommitment =>
  split at h
  · next heq =>
      simp only [blockBodyCommitment] at hcommitment
      split at hcommitment
      · simp at hcommitment
      · rw [hcommitment, heq]
  · simp at h

theorem Reaches.integrity_of_mem {c : ChainContext} {blocks : List Bytes} {s : ChainState}
    (h : Reaches c blocks s) {bytes : Bytes} (hbytes : bytes ∈ blocks) :
    blockCheckIntegrity bytes c.hashProvider = .ok () := by
  obtain ⟨past, rest, rfl⟩ := List.append_of_mem hbytes
  obtain ⟨prior, s', -, hstep, -⟩ := h.step_at
  obtain ⟨b, flags, candidate, hprepared, -⟩ := reconstructStep_eq_ok_iff.mp hstep
  exact hprepared.integrity

/-- Without collisions, intact blocks of one identifier are equal. -/
theorem BlocksCollisionFree.eq_of_blockId {provider : HashProvider} {blocks : List Bytes}
    (h : BlocksCollisionFree provider blocks) {x y : Bytes} (hx : x ∈ blocks) (hy : y ∈ blocks)
    {b b' : Block} (hdecode : blockDecode x = .ok b) (hdecode' : blockDecode y = .ok b')
    (hintegrity : blockCheckIntegrity x provider = .ok ())
    (hintegrity' : blockCheckIntegrity y provider = .ok ())
    (hid : chainBlockId x provider = chainBlockId y provider) : x = y := by
  have hheaders : x.take blockHeaderSize = y.take blockHeaderSize := by
    simp only [chainBlockId, blockValidateStructure, hdecode, hdecode'] at hid
    exact h.headers _ (List.mem_map_of_mem hx) _ (List.mem_map_of_mem hy) hid
  obtain ⟨-, hheader, hbody, -⟩ := blockDecode_eq_ok hdecode
  obtain ⟨-, hheader', hbody', -⟩ := blockDecode_eq_ok hdecode'
  have hsame : b.header = b'.header := by
    have hheaders : x.take 168 = y.take 168 := hheaders
    rw [hheaders] at hheader
    exact Except.ok.inj (hheader.symm.trans hheader')
  have hbodies : x.drop blockHeaderSize = y.drop blockHeaderSize := by
    have hdigest := blockCheckIntegrity_commitment hdecode hintegrity
    have hdigest' := blockCheckIntegrity_commitment hdecode' hintegrity'
    rw [hsame, ← hdigest', hbody, hbody'] at hdigest
    exact h.bodies _ (List.mem_map_of_mem hx) _ (List.mem_map_of_mem hy) hdigest
  rw [← List.take_append_drop blockHeaderSize x, hheaders, hbodies, List.take_append_drop]

/-- Where identifiers tell the blocks apart, the common blocks are the longest common
prefix. -/
theorem commonBlocks_isGreatest {provider : HashProvider} {lefts rights : List Bytes}
    (hlefts : ∀ bytes ∈ lefts, ∃ id, chainBlockId bytes provider = .ok id)
    (hrights : ∀ bytes ∈ rights, ∃ id, chainBlockId bytes provider = .ok id)
    (hsame : ∀ left ∈ lefts, ∀ right ∈ rights,
      chainBlockId left provider = chainBlockId right provider → left = right) :
    ∃ n, commonBlocks provider lefts rights = .ok n ∧
      IsGreatest (commonLengths lefts rights) n := by
  induction lefts generalizing rights with
  | nil => exact ⟨0, by simp [commonBlocks], isGreatest_commonLengths_nil rights⟩
  | cons left lefts ih =>
      cases rights with
      | nil =>
          refine ⟨0, by simp [commonBlocks], ?_⟩
          rw [commonLengths_comm]
          exact isGreatest_commonLengths_nil _
      | cons right rights =>
          obtain ⟨l, hl⟩ := hlefts left List.mem_cons_self
          obtain ⟨r, hr⟩ := hrights right List.mem_cons_self
          by_cases heq : l = r
          · subst heq
            obtain rfl := hsame left List.mem_cons_self right List.mem_cons_self (hl.trans hr.symm)
            obtain ⟨n, hn, hgreatest⟩ := ih (fun t ht => hlefts t (List.mem_cons_of_mem _ ht))
              (fun t ht => hrights t (List.mem_cons_of_mem _ ht))
              (fun t ht u hu => hsame t (List.mem_cons_of_mem _ ht) u (List.mem_cons_of_mem _ hu))
            exact ⟨n + 1, by simp [commonBlocks, hl, hn, Except.map],
              isGreatest_commonLengths_cons left hgreatest⟩
          · have hne : left ≠ right := by
              rintro rfl
              exact heq (Except.ok.inj (hl.symm.trans hr))
            exact ⟨0, by simp [commonBlocks, hl, hr, heq], isGreatest_commonLengths_of_ne hne _ _⟩

/-! ## Exact plans -/

/-- A plan says exactly how one accepted history is turned into another. -/
structure ExactPlan (c : ChainContext) (current candidate : List Bytes) (s t : ChainState)
    (plan : ReorgPlan) : Prop where
  states : plan.current = s ∧ plan.candidate = t
  ancestor : IsGreatest (commonLengths current candidate) (plan.ancestorIndex + 1)
  ancestorId : ∀ bytes, current[plan.ancestorIndex]? = some bytes →
    chainBlockId bytes c.hashProvider = .ok plan.ancestorId
  detach : plan.detachBegin = plan.ancestorIndex + 1 ∧ plan.detachEnd = current.length ∧
    plan.detachBegin + plan.detachedCount = plan.detachEnd
  attach : plan.attachBegin = plan.ancestorIndex + 1 ∧ plan.attachEnd = candidate.length ∧
    plan.attachBegin + plan.attachedCount = plan.attachEnd
  rebuilds : current.take plan.detachBegin ++
    (candidate.drop plan.attachBegin).take plan.attachedCount = candidate
  actionable : plan.actionable = true ↔ s.cumulativeWork.toNat < t.cumulativeWork.toNat
  resultingHeight : plan.resultingHeight = if plan.actionable then t.height else s.height

/-- The decision for the swapped histories. -/
def ForkResult.mirror : ForkResult → ForkResult
  | .current => .candidate
  | .candidate => .current
  | r => r

/-- Two plans that detach what the other attaches. -/
structure MirrorPlans (plan plan' : ReorgPlan) : Prop where
  ancestorIndex : plan'.ancestorIndex = plan.ancestorIndex
  ancestorId : plan'.ancestorId = plan.ancestorId
  detach : plan'.detachBegin = plan.attachBegin ∧ plan'.detachEnd = plan.attachEnd ∧
    plan'.detachedCount = plan.attachedCount
  attach : plan'.attachBegin = plan.detachBegin ∧ plan'.attachEnd = plan.detachEnd ∧
    plan'.attachedCount = plan.detachedCount
  current : plan'.current = plan.candidate
  candidate : plan'.candidate = plan.current
  opposed : ¬(plan.actionable = true ∧ plan'.actionable = true)

omit [Primitives] in
theorem workOrder_eq_candidate_iff {current candidate : Work} :
    workOrder current candidate = .candidate ↔ current.toNat < candidate.toNat := by
  rw [← BitVec.lt_def, workOrder]
  by_cases hlt : current < candidate
  · rw [if_pos hlt]
    exact iff_of_true rfl hlt
  · rw [if_neg hlt]
    refine iff_of_false ?_ hlt
    split
    · exact ForkResult.noConfusion
    · exact ForkResult.noConfusion

omit [Primitives] in
theorem workOrder_mirror (current candidate : Work) :
    workOrder candidate current = (workOrder current candidate).mirror := by
  by_cases hlt : current < candidate
  · have hnot : ¬candidate < current := fun h => by
      rw [BitVec.lt_def] at h hlt
      omega
    simp only [workOrder, if_pos hlt, if_neg hnot, ForkResult.mirror]
  · by_cases hgt : candidate < current
    · simp only [workOrder, if_neg hlt, if_pos hgt, ForkResult.mirror]
    · simp only [workOrder, if_neg hlt, if_neg hgt, ForkResult.mirror]

/-- The plan over the longest common prefix is exact. -/
theorem reorgPlan_exact {c : ChainContext} {current candidate : List Bytes} {s t : ChainState}
    {common : ℕ} {ancestorId : Octets 32} (hpositive : 0 < common)
    (hgreatest : IsGreatest (commonLengths current candidate) common)
    (hid : ∀ bytes, current[common - 1]? = some bytes →
      chainBlockId bytes c.hashProvider = .ok ancestorId) :
    ExactPlan c current candidate s t
      (reorgPlan s t common current.length candidate.length ancestorId) := by
  obtain ⟨hle, hle', heq⟩ := hgreatest.1
  have hindex : common - 1 + 1 = common := Nat.succ_pred_eq_of_pos hpositive
  exact {
    states := ⟨rfl, rfl⟩
    ancestor := by
      show IsGreatest (commonLengths current candidate) (common - 1 + 1)
      rw [hindex]
      exact hgreatest
    ancestorId := hid
    detach := ⟨hindex.symm, rfl, Nat.add_sub_cancel' hle⟩
    attach := ⟨hindex.symm, rfl, Nat.add_sub_cancel' hle'⟩
    rebuilds := by
      show current.take common ++ (candidate.drop common).take (candidate.length - common) =
        candidate
      have hwhole : (candidate.drop common).length ≤ candidate.length - common :=
        List.length_drop.le
      rw [heq, List.take_of_length_le hwhole, List.take_append_drop]
    actionable := by
      rw [← workOrder_eq_candidate_iff]
      exact decide_eq_true_iff
    resultingHeight := by
      simp only [reorgPlan, decide_eq_true_eq] }

section Choice

variable {c : ChainContext} {current candidate : List Bytes} {s t : ChainState}

/-- Accepted histories of one context share their genesis block. -/
theorem Accepts.common_genesis (h : Accepts c current s) (h' : Accepts c candidate t) :
    1 ∈ commonLengths current candidate := by
  obtain ⟨bytes, rest, rfl⟩ := List.exists_cons_of_ne_nil (accepts_iff.mp h).1
  obtain ⟨bytes', rest', rfl⟩ := List.exists_cons_of_ne_nil (accepts_iff.mp h').1
  rw [h.head, h'.head]
  exact ⟨Nat.succ_le_succ (Nat.zero_le _), Nat.succ_le_succ (Nat.zero_le _), rfl⟩

/-- A block of an accepted history names the block before it. -/
theorem Reaches.previousHash_at {past rest : List Bytes} {parent bytes : Bytes}
    (h : Reaches c (past ++ parent :: bytes :: rest) s) {b : Block}
    (hdecode : blockDecode bytes = .ok b) :
    chainBlockId parent c.hashProvider = .ok b.header.previousHash := by
  have hafter : Reaches c ((past ++ [parent]) ++ bytes :: rest) s := by
    rw [List.append_assoc]
    exact h
  obtain ⟨prior, s', hprior, hstep, -⟩ := hafter.step_at
  obtain ⟨b', flags, candidate, hprepared, -⟩ := reconstructStep_eq_ok_iff.mp hstep
  obtain rfl := Except.ok.inj (hdecode.symm.trans hprepared.decode)
  have htip : prior.hasTip = true := hprior.tipOf.hasTip.mpr (List.concat_ne_nil _ _)
  rw [(hprepared.continues htip).2.1]
  exact hprior.tipId_snoc

/-- Without collisions, histories that share a block share the blocks before it. -/
theorem BlocksCollisionFree.past_eq {blocks : List Bytes}
    (hfree : BlocksCollisionFree c.hashProvider blocks) {past past' rest rest' : List Bytes}
    {bytes : Bytes} (h : Reaches c (past ++ bytes :: rest) s)
    (h' : Reaches c (past' ++ bytes :: rest') t) (hin : past ⊆ blocks) (hin' : past' ⊆ blocks) :
    past = past' := by
  induction past using List.reverseRecOn generalizing past' bytes rest rest' with
  | nil =>
      obtain ⟨b, hdecode⟩ := h.decode_of_mem (List.mem_append_right _ List.mem_cons_self)
      have hheight := h.height_at hdecode
      rw [h'.height_at hdecode] at hheight
      exact (List.length_eq_zero_iff.mp hheight).symm
  | append_singleton front parent ih =>
      obtain ⟨b, hdecode⟩ := h.decode_of_mem (List.mem_append_right _ List.mem_cons_self)
      have hheight := h.height_at hdecode
      rw [h'.height_at hdecode, List.length_append, List.length_singleton] at hheight
      rcases List.eq_nil_or_concat' past' with rfl | ⟨front', parent', rfl⟩
      · cases hheight
      -- The parents have the identifier the shared block names.
      have hshape : Reaches c (front ++ parent :: bytes :: rest) s := by simpa using h
      have hshape' : Reaches c (front' ++ parent' :: bytes :: rest') t := by simpa using h'
      have hid := (hshape.previousHash_at hdecode).trans (hshape'.previousHash_at hdecode).symm
      have hmem : parent ∈ front ++ parent :: bytes :: rest :=
        List.mem_append_right _ List.mem_cons_self
      have hmem' : parent' ∈ front' ++ parent' :: bytes :: rest' :=
        List.mem_append_right _ List.mem_cons_self
      obtain ⟨d, hparent⟩ := hshape.decode_of_mem hmem
      obtain ⟨d', hparent'⟩ := hshape'.decode_of_mem hmem'
      obtain ⟨hfront, hlast⟩ := List.append_subset.mp hin
      obtain ⟨hfront', hlast'⟩ := List.append_subset.mp hin'
      obtain rfl := hfree.eq_of_blockId (hlast List.mem_cons_self) (hlast' List.mem_cons_self)
        hparent hparent' (hshape.integrity_of_mem hmem) (hshape'.integrity_of_mem hmem') hid
      rw [ih hshape hshape' hfront hfront']

/-- A block of both histories stands within their longest common prefix. -/
theorem common_of_mem (h : Reaches c current s) (h' : Reaches c candidate t)
    (hfree : BlocksCollisionFree c.hashProvider (current ++ candidate)) {common : ℕ}
    (hgreatest : IsGreatest (commonLengths current candidate) common) {bytes : Bytes}
    (hmem : bytes ∈ current) (hmem' : bytes ∈ candidate) :
    ∃ past rest rest', current = past ++ bytes :: rest ∧ candidate = past ++ bytes :: rest' ∧
      past.length < common := by
  obtain ⟨past, rest, rfl⟩ := List.append_of_mem hmem
  obtain ⟨past', rest', rfl⟩ := List.append_of_mem hmem'
  obtain rfl := hfree.past_eq h h'
    (fun x hx => List.mem_append_left _ (List.mem_append_left _ hx))
    (fun x hx => List.mem_append_right _ (List.mem_append_left _ hx))
  refine ⟨past, rest, rest', rfl, rfl, hgreatest.2 ⟨?_, ?_, ?_⟩⟩
  · simp
  · simp
  · simp [List.take_append]

/-- The evaluation of two accepted histories over their longest common prefix. -/
theorem forkEvaluateHistory_exact (hpolicy : c.powPolicy.isSome) (h : Accepts c current s)
    (h' : Accepts c candidate t)
    (hfree : BlocksCollisionFree c.hashProvider (current ++ candidate)) :
    ∃ common ancestorId, IsGreatest (commonLengths current candidate) common ∧ 0 < common ∧
      (∀ bytes, current[common - 1]? = some bytes →
        chainBlockId bytes c.hashProvider = .ok ancestorId) ∧
      forkEvaluateHistory c current candidate =
        ({ zeroForkReport with
            validation := acceptedReport c
            result := workOrder s.cumulativeWork t.cumulativeWork },
          some (reorgPlan s t common current.length candidate.length ancestorId)) := by
  obtain ⟨-, hreach⟩ := accepts_iff.mp h
  obtain ⟨-, hreach'⟩ := accepts_iff.mp h'
  have hids := fun bytes (hbytes : bytes ∈ current) => hreach.blockId_of_mem hbytes
  have hids' := fun bytes (hbytes : bytes ∈ candidate) => hreach'.blockId_of_mem hbytes
  obtain ⟨common, hcommon, hgreatest⟩ := commonBlocks_isGreatest hids hids' (by
    intro left hleft right hright hid
    obtain ⟨b, hdecode⟩ := hreach.decode_of_mem hleft
    obtain ⟨b', hdecode'⟩ := hreach'.decode_of_mem hright
    exact hfree.eq_of_blockId (List.mem_append_left _ hleft) (List.mem_append_right _ hright)
      hdecode hdecode' (hreach.integrity_of_mem hleft) (hreach'.integrity_of_mem hright) hid)
  have hpositive : 0 < common := hgreatest.2 (h.common_genesis h')
  have hsome : ¬c.powPolicy.isNone = true := by
    simpa [Option.isSome_iff_ne_none, Option.isNone_iff_eq_none] using hpolicy
  obtain ⟨ancestorId, hplan, hid⟩ := forkPlan_of_le (c := c)
    (r := { zeroForkReport with validation := acceptedReport c, result := .tie }) s t
    candidate.length hids hpositive hgreatest.1.1
  refine ⟨common, ancestorId, hgreatest, hpositive, hid, ?_⟩
  simp only [forkEvaluateHistory, if_neg hsome, forkHistory_of_accepts h,
    forkHistory_of_accepts h', hcommon, if_neg hpositive.ne', hplan]

/-- Fork choice between accepted histories is exact and antisymmetric under a
proof-of-work policy, and unsupported without one. -/
theorem fork_choice_exact (h : Accepts c current s) (h' : Accepts c candidate t)
    (hfree : BlocksCollisionFree c.hashProvider (current ++ candidate)) :
    (c.powPolicy = none →
      (forkEvaluateHistory c current candidate).1.result = .unsupported ∧
        (forkEvaluateHistory c current candidate).2 = none) ∧
    (c.powPolicy.isSome → ∃ plan plan',
      (forkEvaluateHistory c current candidate).2 = some plan ∧
      (forkEvaluateHistory c candidate current).2 = some plan' ∧
      ExactPlan c current candidate s t plan ∧ ExactPlan c candidate current t s plan' ∧
      (forkEvaluateHistory c candidate current).1.result =
        (forkEvaluateHistory c current candidate).1.result.mirror ∧
      MirrorPlans plan plan') := by
  constructor
  · intro hpolicy
    simp [forkEvaluateHistory, hpolicy]
  · intro hpolicy
    obtain ⟨common, ancestorId, hgreatest, hpositive, hid, heval⟩ :=
      forkEvaluateHistory_exact hpolicy h h' hfree
    obtain ⟨common', ancestorId', hgreatest', -, hid', heval'⟩ :=
      forkEvaluateHistory_exact hpolicy h' h hfree.comm
    have hexact := reorgPlan_exact (s := s) (t := t) hpositive hgreatest hid
    rw [commonLengths_comm] at hgreatest'
    obtain rfl := hgreatest.unique hgreatest'
    have hgreatest'' := commonLengths_comm current candidate ▸ hgreatest
    have hexact' := reorgPlan_exact (s := t) (t := s) hpositive hgreatest'' hid'
    have hancestor : ancestorId' = ancestorId := by
      obtain ⟨hle, hle', heq⟩ := hgreatest.1
      have hget : current[common - 1]? = some current[common - 1] :=
        List.getElem?_eq_getElem (by omega)
      have hsame : candidate[common - 1]? = current[common - 1]? := by
        have hlt : common - 1 < common := by omega
        rw [← List.getElem?_take_of_lt hlt, ← heq, List.getElem?_take_of_lt hlt]
      exact Except.ok.inj ((hid' _ (hsame.trans hget)).symm.trans (hid _ hget))
    rw [heval, heval']
    refine ⟨_, _, rfl, rfl, hexact, hexact', workOrder_mirror _ _, ?_⟩
    exact {
      ancestorIndex := rfl
      ancestorId := hancestor
      detach := ⟨rfl, rfl, rfl⟩
      attach := ⟨rfl, rfl, rfl⟩
      current := rfl
      candidate := rfl
      opposed := by
        rintro ⟨hleft, hright⟩
        exact lt_asymm (hexact.actionable.mp hleft) (hexact'.actionable.mp hright) }

end Choice

end

section Sample

open Sample

section

attribute [local instance] countingPrimitives

/-- Without a proof-of-work policy no plan is reported. -/
theorem sample_fork_unsupported : ¬ ∀ (c : ChainContext) (current candidate : List Bytes)
    (s t : ChainState), Accepts c current s → Accepts c candidate t →
      BlocksCollisionFree c.hashProvider (current ++ candidate) →
      ∃ plan, (forkEvaluateHistory c current candidate).2 = some plan ∧
        ExactPlan c current candidate s t plan := by
  intro h
  obtain ⟨s, hs⟩ := countingAt_zero
  have haccepts : Accepts countingContext
      ([countingGenesis] ++ [countingBlock (countingId 0) 1 [destination alice]]) s := hs.accepts
  obtain ⟨t, ht⟩ := haccepts.front (List.cons_ne_nil _ _)
  have hfree : BlocksCollisionFree countingContext.hashProvider
      ([countingGenesis] ++ [countingGenesis]) := by
    constructor
    · intro x hx y hy _
      simp only [List.map_append, List.mem_append, List.map_cons, List.map_nil,
        List.mem_singleton, or_self] at hx hy
      rw [hx, hy]
    · intro x hx y hy _
      simp only [List.map_append, List.mem_append, List.map_cons, List.map_nil,
        List.mem_singleton, or_self] at hx hy
      rw [hx, hy]
  obtain ⟨plan, hplan, -⟩ := h countingContext _ _ t t ht ht hfree
  exact absurd hplan (by simp [forkEvaluateHistory, countingContext])

end

section

attribute [local instance] Sample.primitives

theorem sample_fork_choice : ∃ s t, Accepts context [genesis] s ∧
    Accepts context [genesis, empty] t ∧ ∃ plan plan',
      (forkEvaluateHistory context [genesis] [genesis, empty]).2 = some plan ∧
      (forkEvaluateHistory context [genesis, empty] [genesis]).2 = some plan' ∧
      MirrorPlans plan plan' := by
  obtain ⟨-, t, ht⟩ := accepts_front
  have haccepts : Accepts context ([genesis] ++ [empty]) t := ht
  obtain ⟨s, hs⟩ := haccepts.front (List.cons_ne_nil _ _)
  have hfree : BlocksCollisionFree context.hashProvider ([genesis] ++ [genesis, empty]) :=
    ⟨by unfold CollisionFree; decide +kernel, by unfold CollisionFree; decide +kernel⟩
  obtain ⟨plan, plan', hplan, hplan', -, -, -, hmirror⟩ := (fork_choice_exact hs ht hfree).2 rfl
  exact ⟨s, t, hs, ht, plan, plan', hplan, hplan', hmirror⟩

end

end Sample

end StnChain
