import StnChain.Economy.State
import StnChain.Economy.Share

/-!
# Block compensation and the binding of issuance to evidence

Block-compensation evidence names an accepted block and the miner that claims
it (`stn_block_compensation.c`).  Its replay set consumes evidence identifiers
(`stn_block_compensation_replay.c`).  An issuance record is bound to a share or
to block evidence by identifier, miner and accepted destination
(`stn_issuance_binding.c`), and block evidence, issuance and economic state
change together (`stn_block_compensation_acceptance.c`).
-/

namespace StnChain

variable [Primitives]

/-- `STN_BLOCK_COMPENSATION_CANONICAL_SIZE`. -/
def blockCompensationCanonicalSize : ℕ := 65

/-- `stn_block_compensation_evidence`. -/
structure BlockCompensationEvidence where
  blockId : Octets 32
  miner : Address
  deriving DecidableEq

/-- `stn_block_compensation_encode`. -/
def blockCompensationEncode (e : BlockCompensationEvidence) : Except DataStatus Bytes :=
  if e.miner.type ≠ .identity then .error .type
  else if e.blockId = 0 ∨ e.miner.identifier = 0 then .error .content
  else .ok ([1] ++ octetBytes e.blockId ++ octetBytes e.miner.identifier)

/-- `stn_block_compensation_decode`. -/
def blockCompensationDecode (canonical : Bytes) :
    Except DataStatus BlockCompensationEvidence :=
  if canonical.length ≠ blockCompensationCanonicalSize then .error .length
  else if byteAt canonical 0 ≠ 1 then .error .version
  else
    let e : BlockCompensationEvidence :=
      ⟨octetsAt canonical 1 32, ⟨.identity, octetsAt canonical 33 32⟩⟩
    if e.blockId = 0 ∨ e.miner.identifier = 0 then .error .content else .ok e

/-- `stn_block_compensation_id`. -/
def blockCompensationId (e : BlockCompensationEvidence) : Except DataStatus (Octets 32) :=
  match blockCompensationEncode e with
  | .error status => .error status
  | .ok canonical => Primitives.sha256 (cString "STN-CHAIN:BLOCK-COMPENSATION:ID:1") canonical

omit [Primitives] in
/-- Evidence is read back from its canonical octets. -/
theorem blockCompensationDecode_of_encode {e : BlockCompensationEvidence} {canonical : Bytes}
    (h : blockCompensationEncode e = .ok canonical) :
    blockCompensationDecode canonical = .ok e := by
  obtain ⟨blockId, ⟨_, miner⟩⟩ := e
  simp only [blockCompensationEncode] at h
  split at h
  · simp at h
  next htype =>
  split at h
  · simp at h
  next hcontent =>
  obtain rfl := not_not.mp htype
  obtain rfl := Except.ok.inj h
  have hlen : ([1] ++ octetBytes blockId ++ octetBytes miner).length =
      blockCompensationCanonicalSize := by
    simp [blockCompensationCanonicalSize]
  have hversion : ∀ rest : Bytes, byteAt ([1] ++ rest) 0 = 1 := fun _ => rfl
  simp only [blockCompensationDecode, hlen, ne_eq, not_true_eq_false, if_false]
  simp (disch := simp) only [List.append_assoc, hversion, octetsAt_append_left,
    octetsAt_append_right, octetsAt_octetBytes, length_octetBytes, List.length_cons,
    List.length_nil, Nat.reduceAdd, Nat.reduceSub, hcontent, not_true_eq_false, if_false]

omit [Primitives] in
/-- The octets an evidence was decoded from. -/
theorem blockCompensationDecode_eq_ok {canonical : Bytes}
    {evidence : BlockCompensationEvidence}
    (h : blockCompensationDecode canonical = .ok evidence) :
    canonical =
      [1] ++ octetBytes evidence.blockId ++ octetBytes evidence.miner.identifier := by
  simp only [blockCompensationDecode] at h
  split at h
  · cases h
  next hlength =>
  split at h
  · cases h
  next hversion =>
  split at h
  · cases h
  obtain rfl := Except.ok.inj h
  have hsize : canonical.length = 65 := not_not.mp hlength
  have hhead : ([1] : Bytes) = BigEndian.field canonical 0 1 := by
    rw [field_succ 0 (by omega), field_zero, ← not_not.mp hversion]
  rw [octetBytes_octetsAt (by omega), octetBytes_octetsAt (by omega), hhead,
    BigEndian.field_append_field, BigEndian.field_append_field]
  exact (BigEndian.field_zero_length hsize).symm

/-! ## Replay -/

/-- `STN_BLOCK_COMPENSATION_REPLAY_CAPACITY`. -/
def blockCompensationReplayCapacity : ℕ := 4096

/-- `stn_block_compensation_replay`. -/
structure BlockCompensationReplay where
  ids : List (Octets 32)

/-- `stn_block_compensation_replay_initialize`. -/
def blockCompensationReplayInitialize : BlockCompensationReplay :=
  ⟨[]⟩

/-- `stn_block_compensation_replay_copy`. -/
def blockCompensationReplayCopy (source : BlockCompensationReplay) :
    Except DataStatus BlockCompensationReplay :=
  if source.ids.length > blockCompensationReplayCapacity then .error .content
  else if (0 : Octets 32) ∈ source.ids then .error .content
  else .ok source

/-- The scan of `stn_block_compensation_replay_consume`, in entry order. -/
def blockCompensationReplayScan (evidenceId : Octets 32) :
    List (Octets 32) → Except DataStatus Unit
  | [] => .ok ()
  | id :: rest =>
      if id = 0 then .error .content
      else if id = evidenceId then .error .duplicate
      else blockCompensationReplayScan evidenceId rest

/-- `stn_block_compensation_replay_consume`. -/
def blockCompensationReplayConsume (s : BlockCompensationReplay) (evidenceId : Octets 32) :
    Except DataStatus BlockCompensationReplay :=
  if s.ids.length > blockCompensationReplayCapacity then .error .content
  else if evidenceId = 0 then .error .content
  else
    match blockCompensationReplayScan evidenceId s.ids with
    | .error status => .error status
    | .ok () =>
        if s.ids.length ≥ blockCompensationReplayCapacity then .error .capacity
        else .ok ⟨s.ids ++ [evidenceId]⟩

/-- `stn_block_compensation_replay_consume_evidence`. -/
def blockCompensationReplayConsumeEvidence (s : BlockCompensationReplay)
    (e : BlockCompensationEvidence) : Except DataStatus BlockCompensationReplay :=
  match blockCompensationId e with
  | .error status => .error status
  | .ok evidenceId => blockCompensationReplayConsume s evidenceId

/-! ## Binding -/

/-- `stn_issuance_bind_share`. -/
def issuanceBindShare (issuance : IssuanceRecord) (share : ShareEvidence)
    (compensation : CompensationState) : Except DataStatus Unit :=
  if issuance.reason ≠ issuanceReasonShare ∨ issuance.units ≠ issuanceShareUnits then
    .error .content
  else if share.miner.type ≠ .identity ∨
      issuance.destination.miningIdentity.type ≠ .identity ∨
      issuance.destination.wallet.type ≠ .wallet then .error .type
  else if issuance.destination.miningIdentity.identifier ≠ share.miner.identifier then
    .error .content
  else do
    let id ← shareId share
    if issuance.evidenceId ≠ id then .error .content
    else do
      let wallet ← compensationStateLookup compensation share.miner
      if wallet.identifier ≠ issuance.destination.wallet.identifier then .error .content
      else pure ()

/-- `stn_issuance_bind_block`. -/
def issuanceBindBlock (issuance : IssuanceRecord) (e : BlockCompensationEvidence)
    (compensation : CompensationState) : Except DataStatus Unit :=
  if issuance.reason ≠ issuanceReasonBlock ∨ issuance.units ≠ issuanceBlockUnits then
    .error .content
  else if e.miner.type ≠ .identity ∨
      issuance.destination.miningIdentity.type ≠ .identity ∨
      issuance.destination.wallet.type ≠ .wallet then .error .type
  else if issuance.destination.miningIdentity.identifier ≠ e.miner.identifier then
    .error .content
  else do
    let id ← blockCompensationId e
    if issuance.evidenceId ≠ id then .error .content
    else do
      let wallet ← compensationStateLookup compensation e.miner
      if wallet.identifier ≠ issuance.destination.wallet.identifier then .error .content
      else pure ()

/-! ## Acceptance -/

/-- `stn_block_compensation_accept`: both states change, or neither does. -/
def blockCompensationAccept (replay : BlockCompensationReplay) (e : BlockCompensationEvidence)
    (issuance : IssuanceRecord) (compensation : CompensationState) (economy : EconomicState) :
    Except DataStatus (BlockCompensationReplay × EconomicState) :=
  if economy.balances.length > economy.capacity then .error .content
  else do
    issuanceBindBlock issuance e compensation
    let nextReplay ← blockCompensationReplayCopy replay
    let nextReplay ← blockCompensationReplayConsumeEvidence nextReplay e
    let nextEconomy ← economicStateApply economy issuance
    pure (nextReplay, nextEconomy)

omit [Primitives] in
/-- A consumed identifier is nonzero, new, and added at the end, where there is room. -/
theorem blockCompensationReplayConsume_eq_ok {s s' : BlockCompensationReplay}
    {evidenceId : Octets 32} (h : blockCompensationReplayConsume s evidenceId = .ok s') :
    s.ids.length < blockCompensationReplayCapacity ∧ evidenceId ≠ 0 ∧ evidenceId ∉ s.ids ∧
      s' = ⟨s.ids ++ [evidenceId]⟩ := by
  have hscan : ∀ ids, blockCompensationReplayScan evidenceId ids = .ok () →
      evidenceId ∉ ids := by
    intro ids
    induction ids with
    | nil => simp
    | cons id rest ih =>
        intro hrest
        simp only [blockCompensationReplayScan] at hrest
        split at hrest
        · simp at hrest
        split at hrest
        · simp at hrest
        · next hne => simpa [Ne.symm hne] using ih hrest
  simp only [blockCompensationReplayConsume] at h
  split at h
  · simp at h
  split at h
  · simp at h
  next hzero =>
  split at h
  · simp at h
  next hfresh =>
  split at h
  · simp at h
  next hfull => exact ⟨Nat.lt_of_not_ge hfull, hzero, hscan _ hfresh, (Except.ok.inj h).symm⟩

/-- What the acceptance of block evidence establishes. -/
theorem blockCompensationAccept_eq_ok {replay replay' : BlockCompensationReplay}
    {e : BlockCompensationEvidence} {issuance : IssuanceRecord}
    {compensation : CompensationState} {economy economy' : EconomicState}
    (h : blockCompensationAccept replay e issuance compensation economy =
      .ok (replay', economy')) :
    issuanceBindBlock issuance e compensation = .ok () ∧
      blockCompensationReplayConsumeEvidence replay e = .ok replay' ∧
      economicStateApply economy issuance = .ok economy' := by
  simp only [blockCompensationAccept] at h
  split at h
  · simp at h
  obtain ⟨_, hbind, h⟩ := bind_eq_ok_iff.mp h
  obtain ⟨copy, hcopy, h⟩ := bind_eq_ok_iff.mp h
  obtain ⟨_, hconsume, h⟩ := bind_eq_ok_iff.mp h
  obtain ⟨_, heconomy, h⟩ := bind_eq_ok_iff.mp h
  obtain ⟨rfl, rfl⟩ := Prod.mk.inj (Except.ok.inj h)
  have hsame : copy = replay := by
    simp only [blockCompensationReplayCopy] at hcopy
    split at hcopy
    · simp at hcopy
    split at hcopy
    · simp at hcopy
    · exact (Except.ok.inj hcopy).symm
  exact ⟨hbind, hsame ▸ hconsume, heconomy⟩

end StnChain
