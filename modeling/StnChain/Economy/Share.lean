import StnChain.Identity
import StnChain.Pow

/-!
# Share evidence

A share carries a mining header with a zero nonce field, the nonce that solves
it, and the miner's identity (`stn_share.c`).  The target a share must meet is
derived from the target its own header declares.  The replay set consumes a
work identifier, miner and nonce (`stn_share_replay.c`).
-/

namespace StnChain

/-- `STN_SHARE_CANONICAL_SIZE`. -/
def shareCanonicalSize : ℕ := 273

/-- `stn_share_evidence`. -/
structure ShareEvidence where
  workId : Octets 32
  miner : Address
  nonce : UInt64
  templateHeader : Octets 168
  bodyCommitment : Octets 32
  deriving DecidableEq

/-- The header check `stn_share_encode` and `stn_share_decode` share. -/
def shareHeaderMatches (share : ShareEvidence) : Bool :=
  match blockHeaderDecode (octetBytes share.templateHeader) with
  | .error _ => false
  | .ok header =>
      header.version = powBlockVersion && header.transactionCommitment = share.bodyCommitment

/-- `stn_share_encode`. -/
def shareEncode (share : ShareEvidence) : Except DataStatus Bytes :=
  if share.miner.type ≠ .identity then .error .type
  else if !shareHeaderMatches share then .error .content
  else .ok ([2] ++ octetBytes share.workId ++ octetBytes share.miner.identifier ++
    wireWrite 8 share.nonce.toNat ++ octetBytes share.templateHeader ++
    octetBytes share.bodyCommitment)

/-- `stn_share_decode`. -/
def shareDecode (canonical : Bytes) : Except DataStatus ShareEvidence :=
  if canonical.length ≠ shareCanonicalSize then .error .length
  else if byteAt canonical 0 ≠ 2 then .error .version
  else
    let share : ShareEvidence := {
      workId := octetsAt canonical 1 32
      miner := ⟨.identity, octetsAt canonical 33 32⟩
      nonce := UInt64.ofNat (wireRead canonical 65 8)
      templateHeader := octetsAt canonical 73 168
      bodyCommitment := octetsAt canonical 241 32 }
    if shareHeaderMatches share then .ok share else .error .content

/-- `stn_share_id`. -/
def shareId [Primitives] (share : ShareEvidence) : Except DataStatus (Octets 32) :=
  match shareEncode share with
  | .error status => .error status
  | .ok canonical => Primitives.sha256 (cString "STN-CHAIN:SHARE:ID:1") canonical

/-- `work_id_from_evidence`. -/
def workIdFromEvidence (share : ShareEvidence) (provider : HashProvider) :
    Except DataStatus (Octets 32) :=
  match provider.hash with
  | none => .error .argument
  | some _ => provider.digest (cString "STN-CHAIN:WORK:ID:1") (octetBytes share.templateHeader)

/-- The hash of the work header with the claimed nonce inserted. -/
def shareProof (share : ShareEvidence) (header : BlockHeader) (provider : HashProvider) :
    Except DataStatus (Octets 32) :=
  match blockHeaderEncode { header with reservedWorkNonce := share.nonce } blockHeaderSize with
  | .error status => .error status
  | .ok bytes => provider.digest (cString "STN-CHAIN:BLOCK:ID:1") bytes

/-- `stn_share_verify_evidence`; the digest is the proof-of-work hash. -/
def shareVerifyEvidence (share : ShareEvidence) (provider : HashProvider) :
    Except DataStatus (Octets 32) :=
  match provider.hash with
  | none => .error .argument
  | some _ =>
      if share.miner.type ≠ .identity then .error .type
      else do
        let header ← blockHeaderDecode (octetBytes share.templateHeader)
        if header.version ≠ powBlockVersion then .error .version
        else do
          let workId ← workIdFromEvidence share provider
          if workId ≠ share.workId then .error .content
          else do
            let shareTarget ← economyShareTarget header.reservedTarget
            let hash ← shareProof share header provider
            powCompare hash shareTarget
            pure hash

/-- What a verified share establishes: its work identifier is the digest of its
header, and the proof meets the share target of the target the header declares. -/
theorem shareVerifyEvidence_eq_ok {share : ShareEvidence} {provider : HashProvider}
    {proof : Octets 32} (h : shareVerifyEvidence share provider = .ok proof) :
    workIdFromEvidence share provider = .ok share.workId ∧
      ∃ header shareTarget, blockHeaderDecode (octetBytes share.templateHeader) = .ok header ∧
        economyShareTarget header.reservedTarget = .ok shareTarget ∧
        shareProof share header provider = .ok proof ∧
        powCompare proof shareTarget = .ok () := by
  simp only [shareVerifyEvidence] at h
  split at h
  · simp at h
  split at h
  · simp at h
  obtain ⟨header, hheader, h⟩ := bind_eq_ok_iff.mp h
  split at h
  · simp at h
  obtain ⟨workId, hworkId, h⟩ := bind_eq_ok_iff.mp h
  split at h
  · simp at h
  next hmatch =>
  obtain ⟨shareTarget, htarget, h⟩ := bind_eq_ok_iff.mp h
  obtain ⟨proof', hproof, h⟩ := bind_eq_ok_iff.mp h
  obtain ⟨_, hcompare, h⟩ := bind_eq_ok_iff.mp h
  obtain rfl := Except.ok.inj h
  rw [not_not.mp hmatch] at hworkId
  exact ⟨hworkId, header, shareTarget, hheader, htarget, hproof, hcompare⟩

/-- Evidence of an identity whose work identifier and proof are right is verified. -/
theorem shareVerifyEvidence_of {share : ShareEvidence} {provider : HashProvider}
    {header : BlockHeader} {shareTarget proof : Octets 32} (hminer : share.miner.type = .identity)
    (hheader : blockHeaderDecode (octetBytes share.templateHeader) = .ok header)
    (hversion : header.version = powBlockVersion)
    (hwork : workIdFromEvidence share provider = .ok share.workId)
    (hshare : economyShareTarget header.reservedTarget = .ok shareTarget)
    (hproof : shareProof share header provider = .ok proof)
    (hcompare : powCompare proof shareTarget = .ok ()) :
    shareVerifyEvidence share provider = .ok proof := by
  obtain ⟨hash, hhash⟩ : ∃ hash, provider.hash = some hash := by
    by_contra hnone
    have hnone : provider.hash = none := by
      rw [← Option.not_isSome_iff_eq_none, Option.isSome_iff_exists]
      exact hnone
    simp [workIdFromEvidence, hnone] at hwork
  simp only [shareVerifyEvidence, hhash, hminer, hheader, hversion, hwork, hshare, hproof,
    hcompare, ne_eq, not_true_eq_false, if_false, bind, Except.bind, pure, Except.pure]

/-! ## Replay -/

/-- `stn_share_replay_result`. -/
inductive ShareReplayResult
  | fresh | duplicate | capacity | argument
  deriving DecidableEq, Repr

/-- The 72 octets of a share replay key. -/
structure ShareReplayKey where
  workId : Octets 32
  miner : Octets 32
  nonce : UInt64
  deriving DecidableEq

/-- The replay key of a share whose miner is an identity. -/
def ShareEvidence.key (share : ShareEvidence) : ShareReplayKey :=
  ⟨share.workId, share.miner.identifier, share.nonce⟩

/-- `stn_share_replay_state`. -/
structure ShareReplayState where
  consumed : List ShareReplayKey
  capacity : ℕ

/-- `stn_share_replay_initialize`. -/
def shareReplayInitialize (capacity : ℕ) : ShareReplayState :=
  ⟨[], capacity⟩

/-- `stn_share_replay_key`; `none` is the argument failure. -/
def shareReplayKey (share : ShareEvidence) : Option ShareReplayKey :=
  if share.miner.type ≠ .identity then none
  else some share.key

/-- `stn_share_replay_check`. -/
def shareReplayCheck (s : ShareReplayState) (share : ShareEvidence) : ShareReplayResult :=
  if s.consumed.length > s.capacity then .argument
  else
    match shareReplayKey share with
    | none => .argument
    | some key => if key ∈ s.consumed then .duplicate else .fresh

/-- `stn_share_replay_consume`. -/
def shareReplayConsume (s : ShareReplayState) (share : ShareEvidence) :
    ShareReplayResult × ShareReplayState :=
  if s.consumed.length > s.capacity then (.argument, s)
  else
    match shareReplayKey share with
    | none => (.argument, s)
    | some key =>
        match shareReplayCheck s share with
        | .fresh =>
            if s.consumed.length = s.capacity then (.capacity, s)
            else (.fresh, { s with consumed := s.consumed ++ [key] })
        | result => (result, s)

/-- A share is consumed exactly when its key is new and there is room for it. -/
theorem shareReplayConsume_fresh {s s' : ShareReplayState} {share : ShareEvidence}
    (h : shareReplayConsume s share = (.fresh, s')) :
    s.consumed.length < s.capacity ∧ share.key ∉ s.consumed ∧
      s' = { s with consumed := s.consumed ++ [share.key] } := by
  simp only [shareReplayConsume] at h
  split at h
  · simp at h
  next hwithin =>
  split at h
  · simp at h
  next key hkey =>
  obtain rfl : share.key = key := by
    simp only [shareReplayKey] at hkey
    split at hkey
    · simp at hkey
    · exact Option.some.inj hkey
  split at h
  · next hcheck =>
      split at h
      · simp at h
      next hfull =>
        refine ⟨by omega, fun hmem => ?_, (Prod.mk.inj h).2.symm⟩
        simp [shareReplayCheck, hwithin, hkey, hmem] at hcheck
  · next hcheck => simp_all

end StnChain
