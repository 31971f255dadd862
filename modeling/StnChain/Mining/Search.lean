import StnChain.Arithmetic
import StnChain.Economy.State
import StnChain.Support.ResumableScan

/-!
# The internal miner

The nonce search of `stn_internal_miner.c`.  A call tests a bounded number of nonces from the
saved one on and stops at the first whose header hash meets the block's or the share's target;
the saved nonce and what is tested are those of a resumed scan, `internalMinerLoop_eq`.
-/

namespace StnChain

/-! ## The search -/

/-- `STN_INTERNAL_MINER_MAX_DUTY_PERMILLE`. -/
def internalMinerMaxDutyPermille : ℕ := 20

/-- `stn_internal_miner_result`. -/
inductive InternalMinerResult
  | idle | share | block | exhausted
  deriving DecidableEq, Repr

/-- What a search leaves: its result and evidence, the nonce to go on from, and the nonces
whose headers it had the provider hash. -/
structure InternalMinerOutcome where
  result : InternalMinerResult
  evidence : Option ShareEvidence
  nextNonce : UInt64
  tested : List UInt64
  deriving DecidableEq

/-- What the nonce loop reads. -/
structure MinerSearch where
  templateHeader : Octets 168
  workId : Octets 32
  miner : Address
  base : BlockHeader
  shareTarget : Octets 32

/-- The evidence a nonce gives. -/
def MinerSearch.found (m : MinerSearch) (nonce : UInt64) : ShareEvidence where
  workId := m.workId
  miner := m.miner
  nonce
  templateHeader := m.templateHeader
  bodyCommitment := m.base.transactionCommitment

/-- The hash of the header with a nonce. -/
def MinerSearch.trial (m : MinerSearch) (provider : HashProvider) (nonce : UInt64) :
    Except DataStatus (Octets 32) :=
  match blockHeaderEncode { m.base with reservedWorkNonce := nonce } blockHeaderSize with
  | .error status => .error status
  | .ok encoded => provider.digest (cString "STN-CHAIN:BLOCK:ID:1") encoded

/-- The loop of `stn_internal_miner_search`. -/
def internalMinerLoop (m : MinerSearch) (provider : HashProvider) :
    ℕ → UInt64 → Except DataStatus InternalMinerOutcome
  | 0, nonce => .ok ⟨.idle, none, nonce, []⟩
  | budget + 1, nonce =>
      match m.trial provider nonce with
      | .error status => .error status
      | .ok hash =>
          if powCompare hash m.base.reservedTarget = .ok () ∨
              powCompare hash m.shareTarget = .ok () then
            .ok {
              result := if powCompare hash m.base.reservedTarget = .ok () then .block else .share
              evidence := some (m.found nonce)
              nextNonce := if nonce = uint64Max then 0 else nonce + 1
              tested := [nonce] }
          else if nonce = uint64Max then .ok ⟨.exhausted, none, 0, [nonce]⟩
          else
            match internalMinerLoop m provider budget (nonce + 1) with
            | .error status => .error status
            | .ok outcome => .ok { outcome with tested := nonce :: outcome.tested }

/-- The checks of `stn_internal_miner_search`. -/
def internalMinerPrepare (templateHeader : Octets 168) (workId : Octets 32) (miner : Address)
    (dutyPermille : ℕ) (provider : HashProvider) : Except DataStatus MinerSearch :=
  match provider.hash with
  | none => .error .argument
  | some _ =>
      if miner.type ≠ .identity then .error .type
      else if dutyPermille = 0 ∨ dutyPermille > internalMinerMaxDutyPermille then .error .content
      else
        match blockHeaderDecode (octetBytes templateHeader) with
        | .error status => .error status
        | .ok base =>
            if base.version ≠ powBlockVersion then .error .version
            else if base.reservedWorkNonce ≠ 0 then .error .content
            else
              match targetValidate base.reservedTarget with
              | .error status => .error status
              | .ok () =>
                  match economyShareTarget base.reservedTarget with
                  | .error status => .error status
                  | .ok shareTarget =>
                      match provider.digest (cString "STN-CHAIN:WORK:ID:1")
                        (octetBytes templateHeader) with
                      | .error status => .error status
                      | .ok expectedWork =>
                          if expectedWork ≠ workId then .error .content
                          else .ok { templateHeader, workId, miner, base, shareTarget }

/-- `stn_internal_miner_search`. -/
def internalMinerSearch (templateHeader : Octets 168) (workId : Octets 32) (miner : Address)
    (nextNonce nonceBudget : UInt64) (dutyPermille : ℕ) (provider : HashProvider) :
    Except DataStatus InternalMinerOutcome :=
  match internalMinerPrepare templateHeader workId miner dutyPermille provider with
  | .error status => .error status
  | .ok m => internalMinerLoop m provider nonceBudget.toNat nextNonce

/-! ## Qualifying nonces -/

section Search

variable {m : MinerSearch} {provider : HashProvider}

/-- The hash with a nonce meets the block's or the share's target. -/
def MinerSearch.qualifies (m : MinerSearch) (provider : HashProvider) (nonce : ℕ) : Bool :=
  match m.trial provider (UInt64.ofNat nonce) with
  | .error _ => false
  | .ok hash =>
      powCompare hash m.base.reservedTarget = .ok () ∨ powCompare hash m.shareTarget = .ok ()

/-- The hash with a nonce meets the block's target. -/
def MinerSearch.solves (m : MinerSearch) (provider : HashProvider) (nonce : ℕ) : Bool :=
  match m.trial provider (UInt64.ofNat nonce) with
  | .error _ => false
  | .ok hash => powCompare hash m.base.reservedTarget = .ok ()

/-- A search that scans the nonces. -/
def MinerSearch.outcome (m : MinerSearch) (provider : HashProvider)
    (o : ResumableScan.Outcome) : InternalMinerOutcome where
  result :=
    match o.ending with
    | .idle => .idle
    | .hit nonce => if m.solves provider nonce then .block else .share
    | .exhausted => .exhausted
  evidence :=
    match o.ending with
    | .hit nonce => some (m.found (UInt64.ofNat nonce))
    | _ => none
  nextNonce := UInt64.ofNat o.next
  tested := o.tested.map UInt64.ofNat

theorem MinerSearch.evidence_eq_some {o : ResumableScan.Outcome} {evidence : ShareEvidence}
    (h : (m.outcome provider o).evidence = some evidence) :
    ∃ nonce, o.ending = .hit nonce ∧ m.found (UInt64.ofNat nonce) = evidence := by
  rw [outcome] at h
  cases hending : o.ending with
  | hit nonce =>
      rw [hending] at h
      exact ⟨nonce, rfl, Option.some.inj h⟩
  | _ =>
      rw [hending] at h
      exact absurd h.symm (Option.some_ne_none evidence)

theorem MinerSearch.result_eq_idle {o : ResumableScan.Outcome}
    (h : (m.outcome provider o).result = .idle) : o.ending = .idle := by
  rw [outcome] at h
  cases hending : o.ending with
  | idle => rfl
  | hit nonce =>
      rw [hending] at h
      dsimp only at h
      split at h
      · cases h
      · cases h
  | exhausted =>
      rw [hending] at h
      cases h

/-- The last nonce, `UINT64_MAX`. -/
def lastNonce : ℕ := 2 ^ 64 - 1

theorem ofNat_eq_uint64Max_iff {nonce : ℕ} (h : nonce ≤ lastNonce) :
    UInt64.ofNat nonce = uint64Max ↔ nonce = lastNonce := by
  rw [← UInt64.toNat_inj, UInt64.toNat_ofNat']
  have hmax : uint64Max.toNat = lastNonce := rfl
  rw [hmax]
  simp only [lastNonce] at h ⊢
  omega

/-- The nonce loop is a resumed scan. -/
theorem internalMinerLoop_eq (htrial : ∀ nonce, ∃ hash, m.trial provider nonce = .ok hash)
    (budget : ℕ) {nonce : ℕ} (h : nonce ≤ lastNonce) :
    internalMinerLoop m provider budget (UInt64.ofNat nonce) =
      .ok (m.outcome provider
        (ResumableScan.scan (m.qualifies provider) lastNonce budget nonce)) := by
  induction budget generalizing nonce with
  | zero => exact rfl
  | succ budget ih =>
      obtain ⟨hash, hhash⟩ := htrial (UInt64.ofNat nonce)
      rw [ResumableScan.scan]
      simp only [internalMinerLoop, hhash]
      by_cases hhit : powCompare hash m.base.reservedTarget = .ok () ∨
          powCompare hash m.shareTarget = .ok ()
      · have hqualifies : m.qualifies provider nonce = true := by
          simp only [MinerSearch.qualifies, hhash]
          exact decide_eq_true hhit
        have hnext : (if UInt64.ofNat nonce = uint64Max then 0 else UInt64.ofNat nonce + 1) =
            UInt64.ofNat (if nonce = lastNonce then 0 else nonce + 1) := by
          by_cases hlast : nonce = lastNonce
          · rw [if_pos ((ofNat_eq_uint64Max_iff h).mpr hlast), if_pos hlast]
            exact rfl
          · rw [if_neg fun hmax => hlast ((ofNat_eq_uint64Max_iff h).mp hmax), if_neg hlast,
              UInt64.ofNat_add]
            exact rfl
        have hsolves : m.solves provider nonce =
            decide (powCompare hash m.base.reservedTarget = .ok ()) := by
          simp only [MinerSearch.solves, hhash]
        rw [if_pos hhit, if_pos hqualifies, hnext]
        simp only [MinerSearch.outcome, hsolves, decide_eq_true_eq]
        exact rfl
      · have hqualifies : ¬ m.qualifies provider nonce = true := by
          simp only [MinerSearch.qualifies, hhash]
          exact fun h => hhit (of_decide_eq_true h)
        rw [if_neg hhit, if_neg hqualifies]
        by_cases hlast : nonce = lastNonce
        · rw [if_pos ((ofNat_eq_uint64Max_iff h).mpr hlast), if_pos hlast]
          exact rfl
        · have hnext : UInt64.ofNat nonce + 1 = UInt64.ofNat (nonce + 1) := by
            rw [UInt64.ofNat_add]
            exact rfl
          rw [if_neg fun hmax => hlast ((ofNat_eq_uint64Max_iff h).mp hmax), if_neg hlast, hnext,
            ih (Nat.lt_of_le_of_ne h hlast)]
          exact rfl

/-- What the checks establish. -/
structure MinerSearch.Ready (m : MinerSearch) (provider : HashProvider) : Prop where
  identity : m.miner.type = .identity
  decoded : blockHeaderDecode (octetBytes m.templateHeader) = .ok m.base
  version : m.base.version = powBlockVersion
  work : provider.digest (cString "STN-CHAIN:WORK:ID:1") (octetBytes m.templateHeader) =
    .ok m.workId
  target : economyShareTarget m.base.reservedTarget = .ok m.shareTarget

theorem internalMinerPrepare_ready {templateHeader : Octets 168} {workId : Octets 32}
    {miner : Address} {dutyPermille : ℕ}
    (h : internalMinerPrepare templateHeader workId miner dutyPermille provider = .ok m) :
    m.Ready provider ∧ m.templateHeader = templateHeader ∧ m.workId = workId ∧
      m.miner = miner := by
  simp only [internalMinerPrepare] at h
  split at h
  · cases h
  split at h
  · cases h
  next hidentity =>
  split at h
  · cases h
  split at h
  · cases h
  next base hdecoded =>
  split at h
  · cases h
  next hversion =>
  split at h
  · cases h
  split at h
  · cases h
  split at h
  · cases h
  next shareTarget htarget =>
  split at h
  · cases h
  next expectedWork hwork =>
  split at h
  · cases h
  next hmatch =>
  obtain rfl := Except.ok.inj h
  obtain rfl := not_not.mp hmatch
  exact ⟨⟨not_not.mp hidentity, hdecoded, not_not.mp hversion, hwork, htarget⟩, rfl, rfl, rfl⟩

theorem blockHeaderDecode_valid {bytes : Bytes} {header : BlockHeader}
    (h : blockHeaderDecode bytes = .ok header) : headerValid header = .ok () := by
  simp only [blockHeaderDecode] at h
  split at h
  · cases h
  split at h
  · cases h
  split at h
  · cases h
  next hvalid =>
  obtain rfl := Except.ok.inj h
  exact hvalid

/-- A provider that does not fail hashes the header with every nonce. -/
theorem MinerSearch.Ready.trial (h : m.Ready provider)
    (htotal : provider.Total) (nonce : UInt64) :
    ∃ hash, m.trial provider nonce = .ok hash := by
  have hold := blockHeaderDecode_valid h.decoded
  have hvalid : headerValid { m.base with reservedWorkNonce := nonce } = .ok () := by
    have hother : powBlockVersion ≠ 1 := by decide
    simp only [headerValid, h.version, hother, false_and, or_false] at hold ⊢
    exact hold
  have hencode : blockHeaderEncode { m.base with reservedWorkNonce := nonce } blockHeaderSize =
      .ok (blockHeaderBytes { m.base with reservedWorkNonce := nonce }) := by
    simp only [blockHeaderEncode, hvalid]
    exact if_neg (lt_irrefl _)
  obtain ⟨hash, hhash⟩ := htotal.digest (cString "STN-CHAIN:BLOCK:ID:1")
    (blockHeaderBytes { m.base with reservedWorkNonce := nonce })
  exact ⟨hash, by simp only [MinerSearch.trial, hencode, hhash]⟩

/-- Evidence for the template that verifies has a nonce that qualifies. -/
theorem MinerSearch.Ready.qualifies_of_verified (h : m.Ready provider)
    {evidence : ShareEvidence} (htemplate : evidence.templateHeader = m.templateHeader)
    {proof : Octets 32} (hverified : shareVerifyEvidence evidence provider = .ok proof) :
    m.qualifies provider evidence.nonce.toNat = true := by
  obtain ⟨-, header, shareTarget, hheader, htarget, hproof, hcompare⟩ :=
    shareVerifyEvidence_eq_ok hverified
  rw [htemplate] at hheader
  obtain rfl := Except.ok.inj (hheader.symm.trans h.decoded)
  obtain rfl := Except.ok.inj (htarget.symm.trans h.target)
  have htrial : m.trial provider (UInt64.ofNat evidence.nonce.toNat) = .ok proof := by
    rw [UInt64.ofNat_toNat]
    exact hproof
  simp only [MinerSearch.qualifies, htrial]
  exact decide_eq_true (Or.inr hcompare)

/-- The evidence of a nonce that qualifies verifies. -/
theorem MinerSearch.Ready.verified_of_qualifies (h : m.Ready provider) {nonce : ℕ}
    (hqualifies : m.qualifies provider nonce = true) :
    ∃ proof, shareVerifyEvidence (m.found (UInt64.ofNat nonce)) provider = .ok proof := by
  simp only [MinerSearch.qualifies] at hqualifies
  split at hqualifies
  · exact absurd hqualifies Bool.false_ne_true
  next proof hproof =>
  have hcompare : powCompare proof m.shareTarget = .ok () := by
    rcases of_decide_eq_true hqualifies with hblock | hshare
    · exact powCompare_shareTarget h.target hblock
    · exact hshare
  have hwork : workIdFromEvidence (m.found (UInt64.ofNat nonce)) provider = .ok m.workId := by
    have hwork := h.work
    simp only [workIdFromEvidence, MinerSearch.found]
    cases hnone : provider.hash with
    | none => simp [HashProvider.digest, hnone] at hwork
    | some hash => exact hwork
  exact ⟨proof, shareVerifyEvidence_of h.identity h.decoded h.version hwork h.target hproof
    hcompare⟩

/-- A search after its checks, in terms of the scan. -/
theorem internalMinerSearch_eq (htotal : provider.Total) {templateHeader : Octets 168}
    {workId : Octets 32} {miner : Address} {dutyPermille : ℕ}
    (hprepare : internalMinerPrepare templateHeader workId miner dutyPermille provider = .ok m)
    (nextNonce nonceBudget : UInt64) :
    internalMinerSearch templateHeader workId miner nextNonce nonceBudget dutyPermille provider =
      .ok (m.outcome provider (ResumableScan.scan (m.qualifies provider) lastNonce
        nonceBudget.toNat nextNonce.toNat)) := by
  have hready := (internalMinerPrepare_ready hprepare).1
  have hlast : nextNonce.toNat ≤ lastNonce := Nat.le_of_lt_succ nextNonce.toNat_lt
  have hloop := internalMinerLoop_eq (hready.trial htotal) nonceBudget.toNat hlast
  rw [UInt64.ofNat_toNat] at hloop
  simp only [internalMinerSearch, hprepare]
  exact hloop

/-- What a search returns is evidence that verifies, and an idle one has passed over none. -/
theorem internalMinerSearch_sound (htotal : provider.Total) {templateHeader : Octets 168}
    {workId : Octets 32} {miner : Address} {nextNonce nonceBudget : UInt64} {dutyPermille : ℕ}
    {outcome : InternalMinerOutcome}
    (h : internalMinerSearch templateHeader workId miner nextNonce nonceBudget dutyPermille
      provider = .ok outcome) :
    (∀ evidence, outcome.evidence = some evidence →
      evidence.templateHeader = templateHeader ∧ evidence.workId = workId ∧
      evidence.miner = miner ∧ nextNonce ≤ evidence.nonce ∧
      evidence.nonce.toNat < nextNonce.toNat + nonceBudget.toNat ∧
      ∃ proof, shareVerifyEvidence evidence provider = .ok proof) ∧
    (outcome.result = .idle → outcome.evidence = none ∧
      nextNonce.toNat + nonceBudget.toNat < 2 ^ 64 ∧
      ∀ evidence : ShareEvidence, evidence.templateHeader = templateHeader →
        nextNonce ≤ evidence.nonce →
        evidence.nonce.toNat < nextNonce.toNat + nonceBudget.toNat →
        ∀ proof, shareVerifyEvidence evidence provider ≠ .ok proof) := by
  cases hprepare : internalMinerPrepare templateHeader workId miner dutyPermille provider with
  | error status =>
      simp only [internalMinerSearch, hprepare] at h
      cases h
  | ok m =>
      obtain ⟨hready, rfl, rfl, rfl⟩ := internalMinerPrepare_ready hprepare
      rw [internalMinerSearch_eq htotal hprepare] at h
      obtain rfl := Except.ok.inj h
      have hlast : nextNonce.toNat ≤ lastNonce := Nat.le_of_lt_succ nextNonce.toNat_lt
      obtain ⟨count, hscanned⟩ :=
        ResumableScan.scan_scanned (m.qualifies provider) nonceBudget.toNat hlast
      have hending := hscanned.ending
      refine ⟨?_, ?_⟩
      · intro evidence hevidence
        obtain ⟨nonce, hhit, rfl⟩ := MinerSearch.evidence_eq_some hevidence
        rw [hhit] at hending
        obtain ⟨hfrom, hend, hqualifies⟩ := hending
        have hbounded := hscanned.bounded
        have hwithin := hscanned.within
        have hnonce : (m.found (UInt64.ofNat nonce)).nonce.toNat = nonce := by
          show (UInt64.ofNat nonce).toNat = nonce
          rw [UInt64.toNat_ofNat']
          simp only [lastNonce] at hwithin
          omega
        refine ⟨rfl, rfl, rfl, ?_, ?_, hready.verified_of_qualifies hqualifies⟩
        · rwa [UInt64.le_iff_toNat_le, hnonce]
        · omega
      · intro hresult
        have hidle := MinerSearch.result_eq_idle hresult
        rw [hidle] at hending
        obtain ⟨hcount, hlow, hnone⟩ := hending
        refine ⟨?_, ?_, ?_⟩
        · rw [MinerSearch.outcome, hidle]
        · rw [← hcount]
          exact Nat.lt_succ_of_le hlow
        · intro evidence htemplate hfrom hto proof hverified
          have hqualifies := hready.qualifies_of_verified htemplate hverified
          rw [hnone evidence.nonce.toNat (UInt64.le_iff_toNat_le.mp hfrom) (hcount ▸ hto)]
            at hqualifies
          exact Bool.false_ne_true hqualifies

/-! ## Consecutive calls -/

/-- The arguments of a call but the saved nonce and the provider. -/
structure MinerCall where
  templateHeader : Octets 168
  workId : Octets 32
  miner : Address
  nonceBudget : UInt64
  dutyPermille : ℕ

/-- The call passes the checks. -/
def MinerCall.Accepted (call : MinerCall) (provider : HashProvider) : Prop :=
  ∃ m, internalMinerPrepare call.templateHeader call.workId call.miner call.dutyPermille
    provider = .ok m

/-- The saved nonce and the nonces tested, after one more call. -/
def minerStep (provider : HashProvider) (s : UInt64 × List UInt64) (call : MinerCall) :
    UInt64 × List UInt64 :=
  match internalMinerSearch call.templateHeader call.workId call.miner s.1 call.nonceBudget
    call.dutyPermille provider with
  | .error _ => s
  | .ok outcome => (outcome.nextNonce, s.2 ++ outcome.tested)

/-- The saved nonce and the nonces tested, after some calls from nonce zero. -/
def minerRun (provider : HashProvider) (calls : List MinerCall) : UInt64 × List UInt64 :=
  calls.foldl (minerStep provider) (0, [])

/-- A call as the scan has it; a refused one tests nothing. -/
def MinerCall.scanned (provider : HashProvider) (call : MinerCall) : (ℕ → Bool) × ℕ :=
  match internalMinerPrepare call.templateHeader call.workId call.miner call.dutyPermille
    provider with
  | .error _ => (fun _ => false, 0)
  | .ok m => (m.qualifies provider, call.nonceBudget.toNat)

/-- A run of calls is a run of the scan. -/
theorem minerRun_eq (htotal : provider.Total) (calls : List MinerCall) :
    minerRun provider calls =
      (UInt64.ofNat (ResumableScan.run lastNonce (calls.map (MinerCall.scanned provider))).1,
        (ResumableScan.run lastNonce (calls.map (MinerCall.scanned provider))).2.map
          UInt64.ofNat) := by
  induction calls using List.reverseRecOn with
  | nil => exact rfl
  | append_singleton calls call ih =>
      have hstep : minerRun provider (calls ++ [call]) =
          minerStep provider (minerRun provider calls) call := by
        rw [minerRun, List.foldl_append]
        exact rfl
      have hlow := ResumableScan.run_next_le lastNonce (calls.map (MinerCall.scanned provider))
      rw [hstep, ih, List.map_append, List.map_singleton, ResumableScan.run_append_singleton]
      generalize ResumableScan.run lastNonce (calls.map (MinerCall.scanned provider)) = s at hlow
      have hnonce : (UInt64.ofNat s.1).toNat = s.1 := by
        rw [UInt64.toNat_ofNat']
        simp only [lastNonce] at hlow
        omega
      simp only [minerStep, MinerCall.scanned]
      cases hprepare : internalMinerPrepare call.templateHeader call.workId call.miner
        call.dutyPermille provider with
      | error status =>
          simp only [internalMinerSearch, hprepare]
          simp only [ResumableScan.scan, List.append_nil]
      | ok m =>
          simp only [internalMinerSearch_eq htotal hprepare, hnonce, MinerSearch.outcome,
            List.map_append]

/-- Evidence a search returns verifies for its template; an idle search has passed over no nonce
whose evidence would; and consecutive calls from nonce zero test the nonces one after the
other, each once, until `UINT64_MAX` has been tested, which enough calls do. -/
theorem internalMinerSearch_exact (htotal : provider.Total) :
    (∀ templateHeader workId miner nextNonce nonceBudget dutyPermille outcome,
      internalMinerSearch templateHeader workId miner nextNonce nonceBudget dutyPermille
        provider = .ok outcome →
      (∀ evidence, outcome.evidence = some evidence →
        evidence.templateHeader = templateHeader ∧ evidence.workId = workId ∧
        evidence.miner = miner ∧ nextNonce ≤ evidence.nonce ∧
        evidence.nonce.toNat < nextNonce.toNat + nonceBudget.toNat ∧
        ∃ proof, shareVerifyEvidence evidence provider = .ok proof) ∧
      (outcome.result = .idle → outcome.evidence = none ∧
        nextNonce.toNat + nonceBudget.toNat < 2 ^ 64 ∧
        ∀ evidence : ShareEvidence, evidence.templateHeader = templateHeader →
          nextNonce ≤ evidence.nonce →
          evidence.nonce.toNat < nextNonce.toNat + nonceBudget.toNat →
          ∀ proof, shareVerifyEvidence evidence provider ≠ .ok proof)) ∧
    (∀ calls, uint64Max ∉ (minerRun provider calls).2 → ∀ call : MinerCall,
      ∃ n ≤ 2 ^ 64,
        (minerRun provider (calls ++ [call])).2 = (List.range n).map UInt64.ofNat ∧
        (call.Accepted provider → 0 < call.nonceBudget →
          (minerRun provider calls).2.length < n)) ∧
    (∀ calls : List MinerCall,
      (∀ call ∈ calls, call.Accepted provider ∧ 0 < call.nonceBudget) →
      2 ^ 64 ≤ calls.length → uint64Max ∈ (minerRun provider calls).2) := by
  have hmax : UInt64.ofNat lastNonce = uint64Max := (ofNat_eq_uint64Max_iff le_rfl).mpr rfl
  have hbudget (call : MinerCall) (haccepted : call.Accepted provider)
      (hpos : 0 < call.nonceBudget) : 0 < (call.scanned provider).2 := by
    obtain ⟨m, hprepare⟩ := haccepted
    simp only [MinerCall.scanned, hprepare]
    exact UInt64.lt_iff_toNat_lt.mp hpos
  refine ⟨?_, ?_, ?_⟩
  · intro templateHeader workId miner nextNonce nonceBudget dutyPermille outcome h
    exact internalMinerSearch_sound htotal h
  · intro calls huntested call
    have hbefore : lastNonce ∉
        (ResumableScan.run lastNonce (calls.map (MinerCall.scanned provider))).2 := by
      intro hmem
      rw [minerRun_eq htotal] at huntested
      exact huntested (hmax ▸ List.mem_map_of_mem hmem)
    obtain ⟨n, hn, htested, hmore⟩ := ResumableScan.run_snoc hbefore (call.scanned provider)
    refine ⟨n, hn, ?_, ?_⟩
    · rw [minerRun_eq htotal, List.map_append, List.map_singleton, htested]
    · intro haccepted hpos
      rw [minerRun_eq htotal, List.length_map]
      exact hmore (hbudget call haccepted hpos)
  · intro calls hcalls hcount
    rw [minerRun_eq htotal, ← hmax]
    refine List.mem_map_of_mem (ResumableScan.run_reaches ?_ ?_)
    · intro scanned hscanned
      obtain ⟨call, hcall, rfl⟩ := List.mem_map.mp hscanned
      exact hbudget call (hcalls call hcall).1 (hcalls call hcall).2
    · rw [List.length_map]
      exact Nat.lt_of_succ_le hcount

end Search

namespace Sample

/-- A provider whose digests meet no target. -/
def highDigests : HashProvider where
  hash := some fun _ _ => .ok (BitVec.allOnes 256)

/-- A mining header on the zero block. -/
def miningHeader : BlockHeader where
  version := powBlockVersion
  flags := 0
  networkId := 1
  previousHash := 0
  height := 0
  timestamp := 60
  transactionCommitment := 0
  reservedTarget := maxTarget
  reservedWorkNonce := 0
  transactionCount := 0
  bodyLength := 0

/-- A call for three nonces. -/
def threeNonces : MinerCall where
  templateHeader := octetsAt (blockHeaderBytes miningHeader) 0 168
  workId := BitVec.allOnes 256
  miner := ⟨.identity, 1⟩
  nonceBudget := 3
  dutyPermille := 20

end Sample

open Sample

theorem sample_search_idle :
    (minerRun highDigests [threeNonces, threeNonces]).2 = [0, 1, 2, 3, 4, 5] ∧
    ∀ evidence : ShareEvidence, evidence.templateHeader = threeNonces.templateHeader →
      3 ≤ evidence.nonce → evidence.nonce.toNat < 6 →
      ∀ proof, shareVerifyEvidence evidence highDigests ≠ .ok proof := by
  have htotal : highDigests.Total := ⟨_, rfl, fun _ _ => ⟨_, rfl⟩⟩
  have hrun : (minerRun highDigests [threeNonces, threeNonces]).2 = [0, 1, 2, 3, 4, 5] := by
    decide +kernel
  have hsearch : internalMinerSearch threeNonces.templateHeader threeNonces.workId
      threeNonces.miner 3 3 20 highDigests = .ok ⟨.idle, none, 6, [3, 4, 5]⟩ := by
    decide +kernel
  exact ⟨hrun, (((internalMinerSearch_exact htotal).1 _ _ _ _ _ _ _ hsearch).2 rfl).2.2⟩

end StnChain
