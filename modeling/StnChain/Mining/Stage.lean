import StnChain.Mining.Template

/-!
# The suffix stage

A suffix that is too long for one request is announced, appended to block by block and
then committed or aborted (`stn_mining.c`).  `SuffixStage.Holds` relates a stage to the
blocks it has accepted, and `stageAppend_spec` says what an append makes of it.
-/

namespace StnChain

/-- `STN_SUFFIX_STAGE_MAX_BLOCKS`. -/
def suffixStageMaxBlocks : ℕ := 4096

/-- `STN_SUFFIX_STAGE_MAX_BYTES`. -/
def suffixStageMaxBytes : ℕ := 64 * 1024 * 1024

/-! ## Requests -/

/-- The BEGIN branch, over a history of `count` blocks. -/
def stageBegin (payload : Bytes) (count : ℕ) (stage : SuffixStage) : RpcCode × SuffixStage :=
  if payload.length ≠ 8 then (.invalid, stage)
  else
    let prefixCount := wireRead payload 0 4
    let total := wireRead payload 4 4
    if prefixCount = 0 ∨ total = 0 ∨ total > suffixStageMaxBlocks ∨ prefixCount > count then
      (.rejected, stage)
    else (.ok, ⟨prefixCount, total, 0, 0, List.replicate total none, true⟩)

/-- A block stored in a slot. -/
def SuffixStage.store (stage : SuffixStage) (i : ℕ) (bytes : Bytes) : SuffixStage :=
  { stage with
    receivedBytes := (stage.receivedBytes + bytes.length) % 2 ^ 64
    slots := stage.slots.set i (some bytes) }

/-- A slot emptied again. -/
def SuffixStage.discard (stage : SuffixStage) (i : ℕ) : SuffixStage :=
  { stage with
    receivedBytes := sizeSub stage.receivedBytes (((stage.slots[i]?.join).map List.length).getD 0)
    slots := stage.slots.set i none }

/-- The loop behind `append_fail`: the first `i` slots from `start` on are emptied, the last
of them first. -/
def SuffixStage.unwind (start i : ℕ) (stage : SuffixStage) : SuffixStage :=
  (List.range i).foldr (fun k stage => stage.discard (start + k)) stage

/-- The block at an offset of an append, with the offset behind it. -/
def appendedBlock (payload : Bytes) (offset receivedBytes : ℕ) : Except RpcCode (Bytes × ℕ) :=
  if offset > payload.length ∨ payload.length - offset < 4 then .error .invalid
  else
    let length := wireRead payload offset 4
    if length < blockHeaderSize ∨ length > blockMaxSize ∨ length > payload.length - (offset + 4)
    then .error .invalid
    else if length > sizeSub suffixStageMaxBytes receivedBytes then .error .capacity
    else .ok ((payload.drop (offset + 4)).take length, offset + 4 + length)

/-- The loop of an append: `remaining` blocks are left, `i` are stored from `start` on. -/
def appendLoop (payload : Bytes) (start : ℕ) :
    (remaining i offset : ℕ) → SuffixStage → RpcCode × SuffixStage
  | 0, i, offset, stage =>
      if offset ≠ payload.length then (.invalid, stage.unwind start i)
      else (.ok, { stage with receivedCount := stage.receivedCount + i })
  | remaining + 1, i, offset, stage =>
      match appendedBlock payload offset stage.receivedBytes with
      | .error code => (code, stage.unwind start i)
      | .ok (bytes, offset) =>
          appendLoop payload start remaining (i + 1) offset (stage.store (start + i) bytes)

/-- The APPEND branch. -/
def stageAppend (payload : Bytes) (stage : SuffixStage) : RpcCode × SuffixStage :=
  if !stage.active ∨ payload.length < 8 then (.rejected, stage)
  else
    let start := wireRead payload 0 4
    let count := wireRead payload 4 4
    if start ≠ stage.receivedCount ∨ count = 0 ∨ count > sizeSub stage.expectedCount start then
      (.rejected, stage)
    else appendLoop payload start count 0 8 stage

/-- The octets could be those of a block, by their number. -/
def BlockSized (bytes : Bytes) : Prop :=
  blockHeaderSize ≤ bytes.length ∧ bytes.length ≤ blockMaxSize

/-! ## What a stage holds -/

/-- The stage has accepted exactly these blocks, in this order. -/
structure SuffixStage.Holds (stage : SuffixStage) (blocks : List Bytes) : Prop where
  active : stage.active = true
  slots : stage.slots =
    blocks.map some ++ List.replicate (stage.expectedCount - blocks.length) none
  count : stage.receivedCount = blocks.length
  bytes : stage.receivedBytes = (blocks.map List.length).sum
  announced : blocks.length ≤ stage.expectedCount
  limit : stage.expectedCount ≤ suffixStageMaxBlocks
  bounded : stage.receivedBytes ≤ suffixStageMaxBytes

/-- The stage an append has reached: besides the accepted blocks it holds those stored so
far, and nothing else has changed. -/
structure SuffixStage.Filled (origin : SuffixStage) (blocks stored : List Bytes)
    (stage : SuffixStage) : Prop where
  slots : stage.slots = (blocks ++ stored).map some ++
    List.replicate (origin.expectedCount - (blocks ++ stored).length) none
  bytes : stage.receivedBytes = ((blocks ++ stored).map List.length).sum
  announced : (blocks ++ stored).length ≤ origin.expectedCount
  bounded : stage.receivedBytes ≤ suffixStageMaxBytes
  rest : stage = { origin with receivedBytes := stage.receivedBytes, slots := stage.slots }

variable {origin stage : SuffixStage} {blocks stored : List Bytes} {payload : Bytes}

theorem SuffixStage.Holds.filled (h : origin.Holds blocks) : origin.Filled blocks [] origin where
  slots := by simpa using h.slots
  bytes := by simpa using h.bytes
  announced := by simpa using h.announced
  bounded := h.bounded
  rest := rfl

theorem sizeSub_of_le {a b : ℕ} (ha : a < 2 ^ 64) (hb : b ≤ a) : sizeSub a b = a - b :=
  TalliedTable.counterSub_of_le ha hb

/-- The first free slot takes a block that fits. -/
theorem SuffixStage.Filled.store (h : origin.Filled blocks stored stage) {bytes : Bytes}
    (hroom : (blocks ++ stored).length < origin.expectedCount)
    (hfits : bytes.length ≤ sizeSub suffixStageMaxBytes stage.receivedBytes) :
    origin.Filled blocks (stored ++ [bytes])
      (stage.store (blocks.length + stored.length) bytes) := by
  have hbounded := h.bounded
  rw [sizeSub_of_le (by norm_num [suffixStageMaxBytes]) hbounded] at hfits
  have hsum : stage.receivedBytes + bytes.length ≤ suffixStageMaxBytes := by
    omega
  have hword : (stage.receivedBytes + bytes.length) % 2 ^ 64 =
      stage.receivedBytes + bytes.length := by
    apply Nat.mod_eq_of_lt
    exact lt_of_le_of_lt hsum (by norm_num [suffixStageMaxBytes])
  have hindex : blocks.length + stored.length = ((blocks ++ stored).map some).length := by
    simp
  obtain ⟨free, hfree⟩ : ∃ free, origin.expectedCount - (blocks ++ stored).length = free + 1 :=
    Nat.exists_eq_add_one_of_ne_zero (by omega)
  constructor
  · simp only [SuffixStage.store, h.slots]
    rw [hindex, List.set_append_right _ _ le_rfl, Nat.sub_self, hfree, List.replicate_succ,
      List.set_cons_zero, ← List.append_assoc]
    have hrest : origin.expectedCount - (blocks ++ stored ++ [bytes]).length = free := by
      simp only [List.length_append, List.length_cons, List.length_nil] at hfree ⊢
      omega
    rw [hrest]
    simp
  · simp only [SuffixStage.store, hword]
    rw [h.bytes, ← List.append_assoc]
    simp [Nat.add_assoc]
  · rw [← List.append_assoc, List.length_append]
    exact hroom
  · simp only [SuffixStage.store, hword]
    exact hsum
  · rw [h.rest]
    rfl

/-- Emptying the slot stored last takes its block out of the account. -/
theorem SuffixStage.Filled.discard {bytes : Bytes}
    (h : origin.Filled blocks (stored ++ [bytes]) stage) :
    origin.Filled blocks stored (stage.discard (blocks.length + stored.length)) := by
  have hindex : blocks.length + stored.length = ((blocks ++ stored).map some).length := by
    simp
  have hslots : stage.slots = (blocks ++ stored).map some ++ some bytes ::
      List.replicate (origin.expectedCount - (blocks ++ stored).length - 1) none := by
    rw [h.slots, ← List.append_assoc, List.length_append]
    simp [Nat.sub_sub]
  have hat : stage.slots[blocks.length + stored.length]? = some (some bytes) := by
    rw [hslots, hindex, List.getElem?_append_right le_rfl]
    simp
  have hannounced := h.announced
  have hbytes : stage.receivedBytes =
      ((blocks ++ stored).map List.length).sum + bytes.length := by
    rw [h.bytes, ← List.append_assoc]
    simp
    omega
  have hless : sizeSub stage.receivedBytes bytes.length =
      ((blocks ++ stored).map List.length).sum := by
    rw [sizeSub_of_le (lt_of_le_of_lt h.bounded (by norm_num [suffixStageMaxBytes])) (by omega)]
    omega
  have hbounded := h.bounded
  rw [← List.append_assoc, List.length_append] at hannounced
  constructor
  · simp only [SuffixStage.discard, hslots]
    rw [hindex, List.set_append_right _ _ le_rfl, Nat.sub_self, List.set_cons_zero,
      ← List.replicate_succ]
    congr 2
    simp only [List.length_cons, List.length_nil] at hannounced
    omega
  · simp [SuffixStage.discard, hat, hless]
  · omega
  · simp only [SuffixStage.discard, hat]
    simp only [Option.join_some, Option.map_some, Option.getD_some, hless]
    omega
  · rw [h.rest]
    rfl

/-- Unwinding an append restores the stage. -/
theorem SuffixStage.Filled.unwind (horigin : origin.Holds blocks)
    (h : origin.Filled blocks stored stage) :
    stage.unwind blocks.length stored.length = origin := by
  induction stored using List.reverseRecOn generalizing stage with
  | nil =>
      have hslots := h.slots
      have hbytes := h.bytes
      rw [List.append_nil] at hslots hbytes
      have hrest := h.rest
      rw [hslots, hbytes, ← horigin.slots, ← horigin.bytes] at hrest
      exact hrest
  | append_singleton stored bytes ih =>
      rw [List.length_append, List.length_singleton, SuffixStage.unwind, List.range_succ,
        List.foldr_append]
      exact ih h.discard

theorem appendedBlock_ne_ok {offset received : ℕ} :
    appendedBlock payload offset received ≠ .error .ok := by
  intro h
  unfold appendedBlock at h
  split at h
  · simp at h
  dsimp only at h
  split at h
  · simp at h
  split at h <;> simp at h

/-- A block taken from an append stands behind its length there. -/
theorem appendedBlock_eq_ok {offset received behind : ℕ} {bytes : Bytes}
    (h : appendedBlock payload offset received = .ok (bytes, behind)) :
    payload.drop offset = wireWrite 4 bytes.length ++ bytes ++ payload.drop behind ∧
      bytes.length ≤ sizeSub suffixStageMaxBytes received ∧ BlockSized bytes := by
  unfold appendedBlock at h
  split at h
  · simp at h
  next hprefix =>
  dsimp only at h
  split at h
  · simp at h
  next hlength =>
  split at h
  · simp at h
  next hfits =>
  obtain ⟨rfl, rfl⟩ := Prod.mk.inj (Except.ok.inj h)
  obtain ⟨hoffset, hfour⟩ := not_or.mp hprefix
  have hend : wireRead payload offset 4 ≤ payload.length - (offset + 4) := by
    by_contra hbeyond
    exact hlength (.inr (.inr (not_le.mp hbeyond)))
  have htake : ((payload.drop (offset + 4)).take (wireRead payload offset 4)).length =
      wireRead payload offset 4 := by
    rw [List.length_take, List.length_drop]
    omega
  have hsized : BlockSized ((payload.drop (offset + 4)).take (wireRead payload offset 4)) := by
    obtain ⟨hmin, hmax⟩ := not_or.mp hlength
    rw [BlockSized, htake]
    exact ⟨not_lt.mp hmin, not_lt.mp fun h => hmax (.inl h)⟩
  refine ⟨?_, by rw [htake]; exact not_lt.mp hfits, hsized⟩
  rw [htake]
  have hbehind : payload.drop (offset + 4 + wireRead payload offset 4) =
      (payload.drop (offset + 4)).drop (wireRead payload offset 4) := List.drop_drop.symm
  have hblock : payload.drop (offset + 4) = (payload.drop offset).drop 4 := List.drop_drop.symm
  rw [wireWrite_wireRead (by omega), BigEndian.field, List.append_assoc, hbehind,
    List.take_append_drop, hblock, List.take_append_drop]

/-- How an append ends: it fails and the stage is as before, or it appends what the payload
lists. -/
structure SuffixStage.Appends (origin : SuffixStage) (blocks : List Bytes) (listed : Bytes)
    (count : ℕ) (r : RpcCode × SuffixStage) : Prop where
  failed : r.1 ≠ .ok → r.2 = origin
  appended : r.1 = .ok → ∃ added : List Bytes, added.length = count ∧ listed = bodyBytes added ∧
    (∀ bytes ∈ added, BlockSized bytes) ∧ r.2.Holds (blocks ++ added) ∧
    r.2.expectedCount = origin.expectedCount

theorem SuffixStage.Filled.complete (horigin : origin.Holds blocks)
    (h : origin.Filled blocks stored stage) :
    SuffixStage.Holds { stage with receivedCount := stage.receivedCount + stored.length }
      (blocks ++ stored) := by
  have hexpected : stage.expectedCount = origin.expectedCount := by
    rw [h.rest]
  have hcount : stage.receivedCount = blocks.length := by
    rw [h.rest, ← horigin.count]
  have hactive : stage.active = true := by
    rw [h.rest, ← horigin.active]
  constructor
  · exact hactive
  · simpa only [hexpected] using h.slots
  · simp [hcount]
  · exact h.bytes
  · simpa only [hexpected] using h.announced
  · simpa only [hexpected] using horigin.limit
  · exact h.bounded

theorem appendLoop_spec (payload : Bytes) (horigin : origin.Holds blocks) (remaining offset : ℕ)
    (h : origin.Filled blocks stored stage)
    (hroom : (blocks ++ stored).length + remaining ≤ origin.expectedCount) :
    origin.Appends (blocks ++ stored) (payload.drop offset) remaining
      (appendLoop payload blocks.length remaining stored.length offset stage) := by
  induction remaining generalizing stored offset stage with
  | zero =>
      rw [appendLoop]
      split
      · constructor
        · exact fun _ => h.unwind horigin
        · simp
      next hend =>
      have hoffset : offset = payload.length := not_not.mp hend
      constructor
      · simp
      · intro _
        refine ⟨[], rfl, ?_, by simp, ?_, ?_⟩
        · simp [hoffset, bodyBytes]
        · simpa using h.complete horigin
        · rw [h.rest]
  | succ remaining ih =>
      rw [appendLoop]
      split
      · next code hcode =>
          constructor
          · exact fun _ => h.unwind horigin
          · rintro rfl
            exact absurd hcode appendedBlock_ne_ok
      next bytes behind hbytes =>
      obtain ⟨hlisted, hfits, hsized⟩ := appendedBlock_eq_ok hbytes
      have hstored := h.store (by omega) hfits
      have hless : (blocks ++ (stored ++ [bytes])).length + remaining ≤ origin.expectedCount := by
        simp only [List.length_append, List.length_cons, List.length_nil] at hroom ⊢
        omega
      have hrest := ih behind hstored hless
      have hstep : (stored ++ [bytes]).length = stored.length + 1 := by
        simp
      rw [hstep] at hrest
      constructor
      · exact hrest.failed
      · intro hok
        obtain ⟨added, hlength, hadded, hall, hholds, hexpected⟩ := hrest.appended hok
        refine ⟨bytes :: added, by simp [hlength], ?_, ?_, ?_, hexpected⟩
        · rw [bodyBytes_cons, hlisted, hadded]
        · exact List.forall_mem_cons.mpr ⟨hsized, hall⟩
        · simpa using hholds

/-- An append to a stage that holds some blocks. -/
theorem stageAppend_spec (h : origin.Holds blocks) (payload : Bytes) :
    origin.Appends blocks (payload.drop 8) (wireRead payload 4 4)
      (stageAppend payload origin) := by
  unfold stageAppend
  split
  · exact ⟨fun _ => rfl, by simp⟩
  dsimp only
  split
  · exact ⟨fun _ => rfl, by simp⟩
  next hrequest =>
  have hstart : wireRead payload 0 4 = blocks.length := by
    rw [← h.count]
    by_contra hother
    exact hrequest (.inl hother)
  have hcount : wireRead payload 4 4 ≤ sizeSub origin.expectedCount blocks.length := by
    rw [← hstart]
    by_contra hmore
    exact hrequest (.inr (.inr (not_le.mp hmore)))
  have hannounced := h.announced
  have hlimit := h.limit
  simp only [suffixStageMaxBlocks] at hlimit
  rw [sizeSub_of_le (by omega) hannounced] at hcount
  have hloop := appendLoop_spec payload h (wireRead payload 4 4) 8 h.filled
    (by simp only [List.append_nil]; omega)
  rw [hstart]
  simpa using hloop

/-- Without an active stage nothing is appended. -/
theorem stageAppend_of_inactive (h : stage.active = false) (payload : Bytes) :
    stageAppend payload stage = (.rejected, stage) := by
  simp [stageAppend, h]

/-- A beginning that is accepted announces its blocks and holds none. -/
theorem stageBegin_spec (payload : Bytes) (count : ℕ) (stage : SuffixStage) :
    ((stageBegin payload count stage).1 ≠ .ok ∧ (stageBegin payload count stage).2 = stage) ∨
      ((stageBegin payload count stage).1 = .ok ∧
        (stageBegin payload count stage).2.Holds [] ∧
        (stageBegin payload count stage).2.expectedCount = wireRead payload 4 4) := by
  unfold stageBegin
  split
  · exact .inl ⟨by simp, rfl⟩
  dsimp only
  split
  · exact .inl ⟨by simp, rfl⟩
  next hrequest =>
  right
  refine ⟨rfl, ?_, rfl⟩
  constructor
  · rfl
  · simp
  · rfl
  · rfl
  · exact Nat.zero_le _
  · by_contra hmore
    exact hrequest (.inr (.inr (.inl (not_le.mp hmore))))
  · exact Nat.zero_le _

end StnChain
