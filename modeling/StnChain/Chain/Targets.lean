import StnChain.Chain.RewardRoom
import StnChain.Chain.Shares
import StnChain.Support.Epochs

/-!
# The target schedule and the cumulative work

Under a proof-of-work policy a state carries a window of header fields and a running
320-bit sum.  Along a reconstructed history the window is the current epoch of
`Epochs` over the headers of the whole history, and the sum is the exact work of all
of them, so that `stn_chain_required_target` succeeds on every reconstructed state
and its value is the retarget rule over the full history.
-/

namespace StnChain

/-! ## Windows the retarget rule accepts -/

/-- Headers that precede a height, with the targets the bootstrap rule demands. -/
structure Preceding (height : ℕ) (bootstrap : Octets 32) (l : List BlockHeader) : Prop where
  heights : ∀ i h, l[i]? = some h → h.height.toNat + l.length = height + i
  version : ∀ h ∈ l, h.version = powBlockVersion
  valid : ∀ h ∈ l, targetValidate h.reservedTarget = .ok ()
  bootstrap : height ≤ 60 → ∀ h ∈ l, h.reservedTarget = bootstrap

theorem Preceding.map_historyEntry {height : ℕ} {bootstrap : Octets 32} {l : List BlockHeader}
    (h : Preceding height bootstrap l) : Preceding height bootstrap (l.map historyEntry) where
  heights i entry hentry := by
    rw [List.getElem?_map, Option.map_eq_some_iff] at hentry
    obtain ⟨header, hheader, rfl⟩ := hentry
    rw [List.length_map]
    exact h.heights i header hheader
  version entry hentry := by
    obtain ⟨header, -, rfl⟩ := List.mem_map.mp hentry
    rfl
  valid entry hentry := by
    obtain ⟨header, hheader, rfl⟩ := List.mem_map.mp hentry
    exact h.valid header hheader
  bootstrap hle entry hentry := by
    obtain ⟨header, hheader, rfl⟩ := List.mem_map.mp hentry
    exact h.bootstrap hle header hheader

/-- The height a window checks its entries against. -/
theorem windowHeight_toNat {height : UInt64} {count i : ℕ} (hcount : count ≤ height.toNat)
    (hi : i < count) :
    (height - UInt64.ofNat count + UInt64.ofNat i).toNat + count = height.toNat + i := by
  have hlt := height.toNat_lt
  have hoffset : (UInt64.ofNat count).toNat = count := UInt64.toNat_ofNat_of_lt (by
    rw [UInt64.size]
    omega)
  have hindex : (UInt64.ofNat i).toNat = i := UInt64.toNat_ofNat_of_lt (by
    rw [UInt64.size]
    omega)
  have hsub : (height - UInt64.ofNat count).toNat = height.toNat - count := by
    rw [UInt64.toNat_sub_of_le _ _ (by rw [UInt64.le_iff_toNat_le, hoffset]; exact hcount), hoffset]
  rw [UInt64.toNat_add, hsub, hindex]
  omega

theorem Preceding.height_eq {height : UInt64} {bootstrap : Octets 32} {l : List BlockHeader}
    (h : Preceding height.toNat bootstrap l) (hle : l.length ≤ height.toNat) {i : ℕ}
    {header : BlockHeader} (hget : l[i]? = some header) :
    header.height = height - UInt64.ofNat l.length + UInt64.ofNat i := by
  obtain ⟨hlt, -⟩ := List.getElem?_eq_some_iff.mp hget
  have hheight := h.heights i header hget
  have hwindow := windowHeight_toNat hle hlt
  apply UInt64.toNat_inj.mp
  omega

/-- A preceding window passes the history checks of the retarget rule. -/
theorem Preceding.targetHistoryValid {height : UInt64} {bootstrap : Octets 32}
    {l : List BlockHeader} (h : Preceding height.toNat bootstrap l)
    (hle : l.length ≤ height.toNat) :
    targetHistoryValid height bootstrap l.length 0 l = .ok () := by
  -- The loop runs over what is left of the window; `i` counts what it has passed.
  have hloop (rest : List BlockHeader) (i : ℕ) (hrest : l.drop i = rest) :
      StnChain.targetHistoryValid height bootstrap l.length i rest = .ok () := by
    induction rest generalizing i with
    | nil => rfl
    | cons header rest ih =>
        have hget : l[i]? = some header := by
          rw [← List.head?_drop, hrest]
          rfl
        have hmem : header ∈ l := List.mem_of_getElem? hget
        have hnext : l.drop (i + 1) = rest := by
          rw [← List.drop_drop, hrest]
          rfl
        have hfields : ¬(header.height ≠ height - UInt64.ofNat l.length + UInt64.ofNat i ∨
            header.version ≠ powBlockVersion) := by
          rintro (hne | hne)
          · exact hne (h.height_eq hle hget)
          · exact hne (h.version header hmem)
        have hboot : ¬(height ≤ 60 ∧ header.reservedTarget ≠ bootstrap) := by
          rintro ⟨hearly, hne⟩
          exact hne (h.bootstrap (UInt64.le_iff_toNat_le.mp hearly) header hmem)
        simp only [StnChain.targetHistoryValid, if_neg hfields, h.valid header hmem, if_neg hboot]
        exact ih (i + 1) hnext
  exact hloop l 0 rfl

section Rule

variable {height : UInt64} {bootstrap : Octets 32} {l : List BlockHeader}
  (hbootstrap : targetValidate bootstrap = .ok ()) (h : Preceding height.toNat bootstrap l)

include hbootstrap h

/-- At a boundary the rule retargets from the first and last of sixty headers. -/
theorem Preceding.targetNext_boundary (hlength : l.length = 60) (hle : 60 ≤ height)
    (hmod : height % 60 = 0) {first last : BlockHeader} (hfirst : l.head? = some first)
    (hlast : l.getLast? = some last) :
    targetNext height bootstrap l =
      .ok (retarget last.reservedTarget (retargetFactor first.timestamp last.timestamp)) := by
  have hne : height ≠ 0 := by
    rintro rfl
    exact absurd hle (by decide)
  have hvalid := h.targetHistoryValid (by
    rw [hlength]
    exact UInt64.le_iff_toNat_le.mp hle)
  rw [hlength] at hvalid
  simp only [targetNext, hbootstrap, hle, hmod, hne, hlength, hvalid, hfirst, hlast, and_self,
    if_true, if_false, lt_irrefl, ne_eq, not_true_eq_false]

/-- Elsewhere the rule keeps the target of the one header before. -/
theorem Preceding.targetNext_within {previous : BlockHeader} (hl : l = [previous])
    (hpositive : height ≠ 0) (hmod : height % 60 ≠ 0) :
    targetNext height bootstrap l = .ok previous.reservedTarget := by
  subst hl
  have hboundary : ¬(60 ≤ height ∧ height % 60 = 0) := fun hboundary => hmod hboundary.2
  have hpos : 1 ≤ height.toNat := by
    apply Nat.pos_of_ne_zero
    intro hzero
    exact hpositive (UInt64.toNat_inj.mp hzero)
  have hvalid := h.targetHistoryValid hpos
  rw [List.length_singleton] at hvalid
  simp only [targetNext, hbootstrap, hboundary, hpositive, hvalid, List.length_singleton,
    List.head?_cons, List.getLast?_singleton, if_false, lt_irrefl, ne_eq, not_true_eq_false,
    not_false_eq_true, if_true]
  split
  · next hearly =>
      have hearly := UInt64.lt_iff_toNat_lt.mp hearly
      rw [h.bootstrap (le_of_lt hearly) previous (List.mem_singleton_self _)]
  · rfl

end Rule

/-! ## The headers of a history -/

/-- The headers of a history, in block order. -/
def historyHeaders [Primitives] (blocks : List Bytes) : List BlockHeader :=
  blocks.filterMap fun bytes => (blockDecode bytes).toOption.map Block.header

/-- The work a header's target stands for. -/
def headerWork (h : BlockHeader) : ℕ :=
  2 ^ 256 / (h.reservedTarget.toNat + 1)

/-- The targets of a list of headers follow the retarget rule: at a positive multiple
of sixty that of `stn_target_next` over the sixty headers before, else the previous one. -/
def TargetsScheduled (policy : PowPolicy) (headers : List BlockHeader) : Prop :=
  ∀ k h, headers[k]? = some h → 0 < k →
    if k % 60 = 0 then
      targetNext (UInt64.ofNat k) policy.fixedTarget ((headers.take k).drop (k - 60)) =
        .ok h.reservedTarget
    else headers[k - 1]?.map BlockHeader.reservedTarget = some h.reservedTarget

section

variable [Primitives]

theorem historyHeaders_nil : historyHeaders [] = [] := rfl

theorem historyHeaders_snoc {past : List Bytes} {bytes : Bytes} {b : Block}
    (h : blockDecode bytes = .ok b) :
    historyHeaders (past ++ [bytes]) = historyHeaders past ++ [b.header] := by
  simp [historyHeaders, h, Except.toOption]

theorem Reaches.length_historyHeaders {c : ChainContext} {blocks : List Bytes} {s : ChainState}
    (h : Reaches c blocks s) : (historyHeaders blocks).length = blocks.length := by
  refine h.invariant (P := fun blocks _ => (historyHeaders blocks).length = blocks.length) ?_ ?_
  · intro s hs
    rfl
  · intro past s bytes b flags candidate s' _ hP hprepared _
    rw [historyHeaders_snoc hprepared.decode, List.length_append, List.length_append, hP]
    rfl

/-! ## The bookkeeping invariant -/

/-- The target fields of a state are those the headers of its history determine. -/
structure Targeted (policy : PowPolicy) (headers : List BlockHeader) (s : ChainState) :
    Prop where
  window : s.targetHistory = (Epochs.current 60 headers).map historyEntry
  target : ∀ h ∈ Epochs.current 60 headers, h.reservedTarget = s.currentTarget
  untargeted : headers = [] → s.currentTarget = 0
  opening : headers.length ≤ 60 → ∀ h ∈ headers, h.reservedTarget = policy.fixedTarget
  heights : ∀ i (h : BlockHeader), headers[i]? = some h → h.height.toNat = i
  version : ∀ h ∈ headers, h.version = powBlockVersion
  valid : ∀ h ∈ headers, targetValidate h.reservedTarget = .ok ()
  ordered : headers.Pairwise fun (h h' : BlockHeader) => h.timestamp ≤ h'.timestamp
  tip : ∀ h, headers.getLast? = some h → h.timestamp = s.timestamp
  work : s.cumulativeWork.toNat = (headers.map headerWork).sum

section Window

variable {policy : PowPolicy} {headers : List BlockHeader} {s : ChainState}
  (h : Targeted policy headers s)

omit [Primitives]

include h

theorem Targeted.length_window (hne : headers ≠ []) :
    s.targetHistory.length = (headers.length - 1) % 60 + 1 := by
  rw [h.window, List.length_map, Epochs.length_current hne]

/-- Any last headers of a history precede its next height. -/
theorem Targeted.preceding {l : List BlockHeader} {k : ℕ} (hl : l = headers.drop k)
    (hk : k ≤ headers.length) : Preceding headers.length policy.fixedTarget l where
  heights i header hget := by
    rw [hl, List.getElem?_drop] at hget
    have hheight := h.heights _ _ hget
    rw [hl, List.length_drop]
    omega
  version header hmem := h.version header (List.mem_of_mem_drop (hl ▸ hmem))
  valid header hmem := h.valid header (List.mem_of_mem_drop (hl ▸ hmem))
  bootstrap hle header hmem := h.opening hle header (List.mem_of_mem_drop (hl ▸ hmem))

/-- The window of a state passes the consistency loop at the next height. -/
theorem Targeted.consistent {height : UInt64} (hheight : height.toNat = headers.length) :
    targetHistoryConsistent s height 0 none s.targetHistory = true := by
  have hpreceding : Preceding height.toNat policy.fixedTarget (Epochs.current 60 headers) := by
    rw [hheight]
    exact h.preceding rfl (by
      have := Nat.div_mul_le_self (headers.length - 1) 60
      omega)
  have hentries := hpreceding.map_historyEntry
  rw [← h.window] at hentries
  have hle : s.targetHistory.length ≤ height.toNat := by
    rw [h.window, List.length_map, hheight, Epochs.current, List.length_drop]
    exact Nat.sub_le _ _
  have htarget : ∀ entry ∈ s.targetHistory, entry.reservedTarget = s.currentTarget := by
    intro entry hentry
    rw [h.window] at hentry
    obtain ⟨header, hheader, rfl⟩ := List.mem_map.mp hentry
    exact h.target header hheader
  have hordered : s.targetHistory.Pairwise fun e e' => e.timestamp ≤ e'.timestamp := by
    rw [h.window, List.pairwise_map]
    exact (h.ordered.sublist (List.drop_sublist _ _)).imp fun hle => hle
  -- The loop runs over what is left of the window, after `i` entries.
  have hloop (rest : List BlockHeader) (i : ℕ) (previous : Option UInt64)
      (hrest : s.targetHistory.drop i = rest)
      (hprevious : ∀ t, previous = some t → ∀ e ∈ rest, t ≤ e.timestamp) :
      targetHistoryConsistent s height i previous rest = true := by
    induction rest generalizing i previous with
    | nil => rfl
    | cons entry rest ih =>
        have hget : s.targetHistory[i]? = some entry := by
          rw [← List.head?_drop, hrest]
          rfl
        have hmem : entry ∈ s.targetHistory := List.mem_of_getElem? hget
        have hnext : s.targetHistory.drop (i + 1) = rest := by
          rw [← List.drop_drop, hrest]
          rfl
        have hlater : ∀ t, some entry.timestamp = some t → ∀ e ∈ rest, t ≤ e.timestamp := by
          intro t ht e he
          obtain rfl := Option.some.inj ht
          have hsuffix := hordered.sublist (List.drop_sublist i s.targetHistory)
          rw [hrest] at hsuffix
          exact (List.pairwise_cons.mp hsuffix).1 e he
        have hpos := hentries.height_eq hle hget
        simp only [targetHistoryConsistent, ih (i + 1) _ hnext hlater,
          hentries.version entry hmem, htarget entry hmem, ← hpos, decide_true, Bool.and_self]
        cases previous with
        | none => rfl
        | some t =>
            simp only [decide_eq_true (hprevious t rfl entry List.mem_cons_self), Bool.and_self]
  exact hloop s.targetHistory 0 none rfl (by simp)

/-- Early on every header has the bootstrap target, so the sum is a multiple. -/
theorem Targeted.work_opening (hlength : headers.length ≤ 60) :
    s.cumulativeWork.toNat =
      headers.length * (2 ^ 256 / (policy.fixedTarget.toNat + 1)) := by
  have hterm : ∀ n ∈ headers.map headerWork, n = 2 ^ 256 / (policy.fixedTarget.toNat + 1) := by
    intro n hn
    obtain ⟨header, hheader, rfl⟩ := List.mem_map.mp hn
    rw [headerWork, h.opening hlength header hheader]
  rw [h.work, List.eq_replicate_of_mem hterm, List.sum_replicate_nat,
    List.length_map]

theorem Targeted.work_pos (hne : headers ≠ []) : 0 < s.cumulativeWork.toNat := by
  obtain ⟨header, hheader⟩ := List.exists_mem_of_ne_nil headers hne
  obtain ⟨-, hlt⟩ := targetValidate_eq_ok_iff.mp (h.valid header hheader)
  have hone : 0 < headerWork header := Nat.div_pos (by omega) (Nat.succ_pos _)
  have hle := List.single_le_sum (fun n _ => Nat.zero_le n) _
    (List.mem_map_of_mem (f := headerWork) hheader)
  rw [h.work]
  exact lt_of_lt_of_le hone hle

/-- The current target of a state is that of its last header. -/
theorem Targeted.currentTarget_last {last : BlockHeader} (hlast : headers.getLast? = some last) :
    last.reservedTarget = s.currentTarget :=
  h.target last (List.mem_of_getLast? (Epochs.getLast?_current.trans hlast))

end Window

/-! ## Consistency of reconstructed states -/

/-- A state at the tip of some headers, anchored in a context. -/
structure Tied (c : ChainContext) (headers : List BlockHeader) (s : ChainState) : Prop where
  networkId : s.networkId = c.networkId
  activation : chainPublicationActivation c = .ok s.publicationActivationHeight
  anchor : priorAnchorValid c s = .ok ()
  hasTip : s.hasTip = true ↔ headers ≠ []
  height : headers ≠ [] → s.height.toNat + 1 = headers.length

theorem Reaches.tied {c : ChainContext} {blocks : List Bytes} {s : ChainState}
    (h : Reaches c blocks s) : Tied c (historyHeaders blocks) s := by
  have hlength := h.length_historyHeaders
  have hnil : historyHeaders blocks ≠ [] ↔ blocks ≠ [] := by
    rw [← List.length_pos_iff, ← List.length_pos_iff, hlength]
  have hanchor : s.networkId = c.networkId ∧ priorAnchorValid c s = .ok () := by
    refine h.invariant
      (P := fun _ s => s.networkId = c.networkId ∧ priorAnchorValid c s = .ok ()) ?_ ?_
    · intro s hs
      obtain ⟨-, activation, -, rfl⟩ := chainInitialize_eq_ok hs
      exact ⟨rfl, by simp [priorAnchorValid, emptyState]⟩
    · intro past s bytes b flags candidate s' _ hs hprepared happlied
      obtain ⟨id, next, hid, hne, hworked, htip, -⟩ := hprepared.next_state
      have hanchor := hprepared.anchor hs.2 hid hne rfl
      have hsame := htip.trans happlied.sameTip
      have hnext : next.networkId = s.networkId ∧
          priorAnchorValid c next = priorAnchorValid c (advanceTip s b id) := by
        simp only [CandidateWorked] at hworked
        split at hworked
        · rw [hworked]
          exact ⟨rfl, rfl⟩
        · obtain ⟨-, -, work, -, rfl⟩ := hworked
          exact ⟨rfl, rfl⟩
      have hkeep : priorAnchorValid c s' = priorAnchorValid c next := by
        simp only [priorAnchorValid, hsame.hasTip, hsame.height, hsame.timestamp, hsame.tipId,
          hsame.genesisId]
      exact ⟨hsame.networkId.trans (hnext.1.trans hs.1), hkeep.trans (hnext.2.trans hanchor)⟩
  exact ⟨hanchor.1, h.activation, hanchor.2, h.tipOf.hasTip.trans hnil.symm,
    fun hne => (h.tipOf.height (hnil.mp hne)).trans hlength.symm⟩

section Required

variable {c : ChainContext} {policy : PowPolicy} {headers : List BlockHeader} {s : ChainState}
  (hpolicy : c.powPolicy = some policy) (hvalid : targetValidate policy.fixedTarget = .ok ())
  (h : Targeted policy headers s) (htied : Tied c headers s)

include hpolicy hvalid h htied

/-- The work fields of a state pass the checks of `prior_valid`. -/
theorem Targeted.priorWorkValid : priorWorkValid c s = .ok () := by
  simp only [StnChain.priorWorkValid, hpolicy]
  by_cases hne : headers = []
  · have htip : s.hasTip = false := by
      rw [← Bool.not_eq_true, htied.hasTip]
      exact not_not.mpr hne
    have hwork : s.cumulativeWork = 0 := by
      apply BitVec.eq_of_toNat_eq
      rw [h.work, hne, toNat_zero_octets]
      rfl
    simp [htip, h.untargeted hne, hwork]
  · have htip := htied.hasTip.mpr hne
    obtain ⟨last, hlast⟩ : ∃ last, headers.getLast? = some last :=
      ⟨_, List.getLast?_eq_some_getLast hne⟩
    have hcurrent := h.currentTarget_last hlast
    have hlastValid := h.valid last (List.mem_of_getLast? hlast)
    have hwork : s.cumulativeWork ≠ 0 := by
      intro hzero
      have hpos := h.work_pos hne
      rw [hzero, toNat_zero_octets] at hpos
      exact Nat.lt_irrefl 0 hpos
    rw [hcurrent] at hlastValid
    simp only [htip, hlastValid, hwork, Bool.not_true, Bool.false_eq_true, if_false, ne_eq,
      not_true_eq_false, or_self]
    by_cases hearly : s.height < 60
    · have hbound : headers.length ≤ 60 := by
        have hheight := htied.height hne
        have hlt := UInt64.lt_iff_toNat_lt.mp hearly
        have hsixty : (60 : UInt64).toNat = 60 := rfl
        omega
      obtain ⟨expected, hexpected, hvalue⟩ := workAtHeight_of_valid hvalid s.height
      have hsame : s.cumulativeWork = expected := by
        apply BitVec.eq_of_toNat_eq
        rw [h.work_opening hbound, hvalue, htied.height hne]
      have hfixed : s.currentTarget = policy.fixedTarget := by
        rw [← hcurrent]
        exact h.opening hbound last (List.mem_of_getLast? hlast)
      simp only [if_pos hearly, hexpected, hfixed, hsame, not_true_eq_false, or_self, if_false]
    · rw [if_neg hearly]

/-- On a consistent state the required target is that of the retarget rule. -/
theorem Targeted.required_eq (hcontext : contextValid c = .ok ()) (hstored : s.Stored)
    (hheight : s.hasTip = true → s.height ≠ uint64Max) :
    chainRequiredTarget c s = targetNext s.nextHeight policy.fixedTarget (targetWindow s) ∧
      s.nextHeight.toNat = headers.length := by
  have hwork := h.priorWorkValid hpolicy hvalid htied
  have hprior : priorValid c s = .ok () := by
    simp only [priorValid, htied.activation, htied.networkId, hwork, htied.anchor,
      if_neg (not_lt.mpr hstored.evidence), if_neg (not_lt.mpr hstored.transfers), ne_eq,
      not_true_eq_false, if_false, gt_iff_lt]
  have hmax : ¬(s.hasTip = true ∧ s.height = uint64Max) := fun hmax => hheight hmax.1 hmax.2
  have hnext : s.nextHeight.toNat = headers.length := by
    rw [ChainState.nextHeight]
    by_cases hne : headers = []
    · have htip : ¬s.hasTip = true := fun htip => htied.hasTip.mp htip hne
      rw [if_neg htip, hne]
      rfl
    · have htip := htied.hasTip.mpr hne
      have hlt := s.height.toNat_lt
      have hbelow : s.height.toNat ≠ 2 ^ 64 - 1 := fun heq =>
        hheight htip (UInt64.toNat_inj.mp (heq.trans rfl))
      rw [if_pos htip, UInt64.toNat_add, UInt64.toNat_one, ← htied.height hne]
      omega
  have hcount : s.targetHistory.length =
      if s.hasTip = true then (s.height % 60).toNat + 1 else 0 := by
    by_cases hne : headers = []
    · have htip : ¬s.hasTip = true := fun htip => htied.hasTip.mp htip hne
      rw [if_neg htip, h.window, hne]
      rfl
    · have hmod : (s.height % 60).toNat = s.height.toNat % 60 := UInt64.toNat_mod _ _
      rw [if_pos (htied.hasTip.mpr hne), h.length_window hne, hmod, ← htied.height hne]
      rfl
  have hlast : ¬(s.targetHistory ≠ [] ∧
      s.targetHistory.getLast?.map BlockHeader.timestamp ≠ some s.timestamp) := by
    rintro ⟨hne, htimestamp⟩
    have hheaders : headers ≠ [] := by
      rintro rfl
      exact hne h.window
    have hget : headers.getLast? = some (headers.getLast hheaders) :=
      List.getLast?_eq_some_getLast hheaders
    have htip := h.tip _ hget
    apply htimestamp
    rw [h.window, List.getLast?_map, Epochs.getLast?_current, hget]
    exact congrArg some htip
  refine ⟨?_, hnext⟩
  simp only [chainRequiredTarget, hcontext, hpolicy, hprior, if_neg hmax, ← hcount,
    h.consistent hnext, if_neg hlast, ne_eq, not_true_eq_false, Bool.not_true, Bool.false_eq_true,
    if_false]

/-- The required target over the full history: the bootstrap target for the genesis,
the retarget rule over the last sixty headers at a boundary, else the last target. -/
theorem Targeted.required (hcontext : contextValid c = .ok ()) (hstored : s.Stored)
    (hheight : s.hasTip = true → s.height ≠ uint64Max) :
    ∃ target, chainRequiredTarget c s = .ok target ∧
      (headers = [] → target = policy.fixedTarget) ∧
      (headers ≠ [] →
        if headers.length % 60 = 0 then
          targetNext (UInt64.ofNat headers.length) policy.fixedTarget
            (headers.drop (headers.length - 60)) = .ok target
        else headers.getLast?.map BlockHeader.reservedTarget = some target) := by
  obtain ⟨hrequired, hnext⟩ := h.required_eq hpolicy hvalid htied hcontext hstored hheight
  rw [hrequired]
  have hmod : (s.nextHeight % 60).toNat = headers.length % 60 := by
    rw [UInt64.toNat_mod, hnext]
    rfl
  have hheightEq : UInt64.ofNat headers.length = s.nextHeight := by
    rw [← hnext, UInt64.ofNat_toNat]
  by_cases hne : headers = []
  · subst hne
    have hzero : s.nextHeight = 0 := UInt64.toNat_inj.mp hnext
    refine ⟨policy.fixedTarget, ?_, fun _ => rfl, fun hne => absurd rfl hne⟩
    have hwindow : targetWindow s = [] := by
      rw [targetWindow, h.window]
      split <;> rfl
    simp [hwindow, hzero, targetNext, hvalid, targetHistoryValid]
  · have hpositive : s.nextHeight ≠ 0 := by
      intro hzero
      rw [hzero] at hnext
      exact hne (List.eq_nil_of_length_eq_zero hnext.symm)
    have hlastHeader : headers.getLast? = some (headers.getLast hne) :=
      List.getLast?_eq_some_getLast hne
    by_cases hboundary : headers.length % 60 = 0
    · have hmodZero : s.nextHeight % 60 = 0 := UInt64.toNat_inj.mp (hmod.trans hboundary)
      have hpos := List.length_pos_of_ne_nil hne
      have hle : 60 ≤ s.nextHeight := by
        rw [UInt64.le_iff_toNat_le, hnext]
        exact Nat.le_of_dvd hpos (Nat.dvd_of_mod_eq_zero hboundary)
      obtain ⟨hcurrent, hlength⟩ := Epochs.current_of_mod_eq_zero hne hboundary
      have hpreceding := h.preceding hcurrent (Nat.sub_le _ _)
      rw [← hnext] at hpreceding
      obtain ⟨first, hfirst⟩ : ∃ first, (Epochs.current 60 headers).head? = some first := by
        rw [← Option.isSome_iff_exists, List.isSome_head?]
        exact Epochs.current_ne_nil hne
      have hlast : (Epochs.current 60 headers).getLast? = some (headers.getLast hne) :=
        Epochs.getLast?_current.trans hlastHeader
      have hwindow : targetWindow s = (Epochs.current 60 headers).map historyEntry := by
        rw [targetWindow, if_pos ⟨hpositive, hmodZero⟩, h.window]
      have hvalue := hpreceding.targetNext_boundary hvalid hlength hle hmodZero hfirst hlast
      -- The rule reads only the fields the window keeps.
      have hkept : targetNext s.nextHeight policy.fixedTarget (targetWindow s) =
          targetNext s.nextHeight policy.fixedTarget (Epochs.current 60 headers) := by
        rw [hvalue, hwindow]
        have hlength' := (List.length_map historyEntry).trans hlength
        have hfirst' := (List.head?_map (f := historyEntry)).trans (congrArg _ hfirst)
        have hlast' := (List.getLast?_map (f := historyEntry)).trans (congrArg _ hlast)
        have hentries := hpreceding.map_historyEntry.targetNext_boundary hvalid hlength' hle
          hmodZero hfirst' hlast'
        exact hentries
      refine ⟨retarget (headers.getLast hne).reservedTarget
          (retargetFactor first.timestamp (headers.getLast hne).timestamp),
        hkept.trans hvalue, fun hnil => absurd hnil hne, fun _ => ?_⟩
      rw [if_pos hboundary, hheightEq, ← hcurrent]
      exact hvalue
    · have hmodNe : s.nextHeight % 60 ≠ 0 := by
        intro hzero
        rw [hzero] at hmod
        exact hboundary hmod.symm
      have hwindow : targetWindow s = [historyEntry (headers.getLast hne)] := by
        rw [targetWindow, if_neg (fun hb => hmodNe hb.2), h.window, List.getLast?_map,
          Epochs.getLast?_current, hlastHeader]
        rfl
      have hlastOne : [headers.getLast hne] = headers.drop (headers.length - 1) :=
        (List.drop_length_sub_one hne).symm
      have hpreceding := (h.preceding hlastOne (Nat.sub_le _ _)).map_historyEntry
      rw [← hnext] at hpreceding
      refine ⟨(headers.getLast hne).reservedTarget, ?_, fun hnil => absurd hnil hne, fun _ => ?_⟩
      · have hentry := hpreceding.targetNext_within hvalid rfl hpositive hmodNe
        rw [hwindow]
        exact hentry
      · rw [if_neg hboundary, hlastHeader]
        rfl

end Required

/-! ## Along a history -/

/-- The policy of a valid context has a valid target. -/
theorem contextValid_target {c : ChainContext} {policy : PowPolicy}
    (hpolicy : c.powPolicy = some policy) (h : contextValid c = .ok ()) :
    targetValidate policy.fixedTarget = .ok () := by
  simp only [contextValid, hpolicy] at h
  split at h
  · simp at h
  split at h
  · simp at h
  split at h
  · simp at h
  split at h
  · simp at h
  split at h
  · simp at h
  · next hgenesis => exact not_not.mp (not_or.mp (not_or.mp hgenesis).2).1

/-- A block that continues a tip is below the last height, names the tip as its parent and is
not before it. -/
theorem CandidatePrepared.continues {c : ChainContext} {prior : ChainState} {bytes : Bytes}
    {reconstruct : Bool} {b : Block} {flags : CandidateFlags} {candidate : ChainState}
    (h : CandidatePrepared c prior bytes reconstruct b flags candidate)
    (htip : prior.hasTip = true) :
    prior.height ≠ uint64Max ∧ b.header.previousHash = prior.tipId ∧
      prior.timestamp ≤ b.header.timestamp := by
  have hlink := h.link
  simp only [linkFailure, htip, Bool.not_true, Bool.false_eq_true, if_false] at hlink
  split at hlink
  · simp at hlink
  split at hlink
  · simp at hlink
  next hheight =>
  split at hlink
  · simp at hlink
  next hparent =>
  split at hlink
  · simp at hlink
  next htimestamp =>
  exact ⟨(not_or.mp hheight).1, not_not.mp hparent, UInt64.not_lt.mp htimestamp⟩

omit [Primitives] in
/-- The fields of the initial state are those of no headers. -/
theorem targeted_empty (policy : PowPolicy) (c : ChainContext) (activation : UInt64) :
    Targeted policy [] (emptyState c activation) where
  window := rfl
  target := by simp
  untargeted _ := rfl
  opening := by simp
  heights := by simp
  version := by simp
  valid := by simp
  ordered := .nil
  tip := by simp
  work := toNat_zero_octets 40

omit [Primitives] in
/-- A block whose target is the required one keeps the target fields. -/
theorem Targeted.snoc {policy : PowPolicy} {headers : List BlockHeader} {s : ChainState}
    (h : Targeted policy headers s) {b : BlockHeader} {next : ChainState} {unit : Work}
    (hheight : b.height.toNat = headers.length) (hversion : b.version = powBlockVersion)
    (hvalid : targetValidate b.reservedTarget = .ok ())
    (htimestamp : headers ≠ [] → s.timestamp ≤ b.timestamp)
    (hfirst : headers = [] → b.reservedTarget = policy.fixedTarget)
    (hlater : headers ≠ [] → headers.length % 60 ≠ 0 →
      headers.getLast?.map BlockHeader.reservedTarget = some b.reservedTarget)
    (hunit : targetWork b.reservedTarget = .ok unit)
    (hwork : workAdd s.cumulativeWork unit = .ok next.cumulativeWork)
    (htarget : next.currentTarget = b.reservedTarget) (htip : next.timestamp = b.timestamp)
    (hwindow : next.targetHistory =
      (if b.height % 60 = 0 then [] else s.targetHistory) ++ [historyEntry b]) :
    Targeted policy (headers ++ [b]) next := by
  have hmod : b.height % 60 = 0 ↔ headers.length % 60 = 0 := by
    rw [← UInt64.toNat_inj, UInt64.toNat_mod, hheight]
    rfl
  have hkeep (hzero : headers.length % 60 ≠ 0) : s.currentTarget = b.reservedTarget := by
    have hne : headers ≠ [] := by
      rintro rfl
      exact hzero rfl
    have hlast : headers.getLast? = some (headers.getLast hne) :=
      List.getLast?_eq_some_getLast hne
    have hsame := hlater hne hzero
    rw [hlast] at hsame
    exact (h.currentTarget_last hlast).symm.trans (Option.some.inj hsame)
  exact {
    window := by
      rw [hwindow, Epochs.current_append_singleton (by norm_num), List.map_append]
      by_cases hzero : headers.length % 60 = 0
      · rw [if_pos hzero, if_pos (hmod.mpr hzero)]
        rfl
      · rw [if_neg hzero, if_neg (mt hmod.mp hzero), h.window]
        rfl
    target := by
      intro header hheader
      rw [Epochs.current_append_singleton (by norm_num), List.mem_append,
        List.mem_singleton] at hheader
      rw [htarget]
      rcases hheader with hheader | rfl
      · by_cases hzero : headers.length % 60 = 0
        · rw [if_pos hzero] at hheader
          exact absurd hheader List.not_mem_nil
        · rw [if_neg hzero] at hheader
          exact (h.target header hheader).trans (hkeep hzero)
      · rfl
    untargeted := by simp
    opening := by
      intro hle
      rw [List.length_append, List.length_singleton] at hle
      have hopening := h.opening (by omega)
      rw [List.forall_mem_append, List.forall_mem_singleton]
      refine ⟨hopening, ?_⟩
      by_cases hne : headers = []
      · exact hfirst hne
      · have hpos := List.length_pos_of_ne_nil hne
        have hlast : headers.getLast? = some (headers.getLast hne) :=
          List.getLast?_eq_some_getLast hne
        rw [← hkeep (by omega), ← h.currentTarget_last hlast]
        exact hopening _ (List.getLast_mem hne)
    heights := by
      intro i header hget
      rcases Nat.lt_or_ge i headers.length with hlt | hge
      · rw [List.getElem?_append_left hlt] at hget
        exact h.heights i header hget
      · rw [List.getElem?_append_right hge, List.getElem?_singleton] at hget
        split at hget
        · obtain rfl := Option.some.inj hget
          omega
        · simp at hget
    version := by
      rw [List.forall_mem_append, List.forall_mem_singleton]
      exact ⟨h.version, hversion⟩
    valid := by
      rw [List.forall_mem_append, List.forall_mem_singleton]
      exact ⟨h.valid, hvalid⟩
    ordered := by
      rw [List.pairwise_append]
      refine ⟨h.ordered, List.pairwise_singleton _ _, fun header hheader header' hheader' => ?_⟩
      obtain rfl := List.mem_singleton.mp hheader'
      have hne : headers ≠ [] := List.ne_nil_of_mem hheader
      have hlast : headers.getLast? = some (headers.getLast hne) :=
        List.getLast?_eq_some_getLast hne
      have hle : header.timestamp ≤ (headers.getLast hne).timestamp := by
        have hordered := h.ordered
        rw [← List.dropLast_append_getLast hne, List.pairwise_append] at hordered
        rw [← List.dropLast_append_getLast hne, List.mem_append, List.mem_singleton] at hheader
        rcases hheader with hfront | rfl
        · exact hordered.2.2 header hfront _ (List.mem_singleton_self _)
        · exact UInt64.le_refl _
      rw [h.tip _ hlast] at hle
      exact UInt64.le_trans hle (htimestamp hne)
    tip := by
      intro header hlast
      rw [List.getLast?_append, List.getLast?_singleton] at hlast
      obtain rfl := Option.some.inj hlast
      exact htip.symm
    work := by
      obtain ⟨exact', hexact, hvalue⟩ := targetWork_of_valid hvalid
      obtain rfl := Except.ok.inj (hunit.symm.trans hexact)
      rw [List.map_append, List.sum_append, workAdd_eq_ok_iff.mp hwork, h.work, hvalue]
      simp [headerWork] }

/-- The target of a block that continues a history, over the headers before it. -/
theorem CandidatePrepared.required {c : ChainContext} {policy : PowPolicy}
    (hpolicy : c.powPolicy = some policy) {past : List Bytes} {s : ChainState}
    (hpast : Reaches c past s) (hs : Targeted policy (historyHeaders past) s) {bytes : Bytes}
    {b : Block} {flags : CandidateFlags} {candidate : ChainState}
    (h : CandidatePrepared c s bytes true b flags candidate) :
    (historyHeaders past = [] → b.header.reservedTarget = policy.fixedTarget) ∧
      (historyHeaders past ≠ [] →
        if (historyHeaders past).length % 60 = 0 then
          targetNext (UInt64.ofNat (historyHeaders past).length) policy.fixedTarget
            ((historyHeaders past).drop ((historyHeaders past).length - 60)) =
              .ok b.header.reservedTarget
        else (historyHeaders past).getLast?.map BlockHeader.reservedTarget =
          some b.header.reservedTarget) := by
  obtain ⟨id, next, -, -, hworked, -, -⟩ := h.next_state
  simp only [CandidateWorked, hpolicy] at hworked
  have hfixed := contextValid_target hpolicy h.context
  have hstored : s.Stored := hpast.preserves stored_preserved (emptyState_stored c)
  obtain ⟨target, htarget, hrule⟩ := hs.required hpolicy hfixed hpast.tied h.context hstored
    fun hhas => (h.continues hhas).1
  obtain rfl := Except.ok.inj (hworked.1.symm.trans htarget)
  exact hrule

/-- Along a history under a proof-of-work policy the target fields are maintained. -/
theorem Reaches.targeted {c : ChainContext} {policy : PowPolicy}
    (hpolicy : c.powPolicy = some policy) {blocks : List Bytes} {s : ChainState}
    (h : Reaches c blocks s) : Targeted policy (historyHeaders blocks) s := by
  refine h.invariant (P := fun blocks s => Targeted policy (historyHeaders blocks) s) ?_ ?_
  · intro s hs
    obtain ⟨-, activation, -, rfl⟩ := chainInitialize_eq_ok hs
    exact targeted_empty policy c activation
  · intro past s bytes b flags candidate s' hpast hs hprepared happlied
    obtain ⟨id, next, -, -, hworked, htip, -⟩ := hprepared.next_state
    simp only [CandidateWorked, hpolicy] at hworked
    obtain ⟨-, hcompare, work, hwork, rfl⟩ := hworked
    have hsame := htip.trans happlied.sameTip
    obtain ⟨hfirst, hlater⟩ := hprepared.required hpolicy hpast hs
    have hvalid : targetValidate b.header.reservedTarget = .ok () := by
      simp only [powCompare] at hcompare
      split at hcompare
      · simp at hcompare
      · next hvalid => exact hvalid
    obtain ⟨unit, hunit, hadd⟩ : ∃ unit, targetWork b.header.reservedTarget = .ok unit ∧
        workAdd s.cumulativeWork unit = .ok work := by
      simp only [candidateWork] at hwork
      split at hwork
      · simp at hwork
      · next unit hunit => exact ⟨unit, hunit, hwork⟩
    have hversion : b.header.version = powBlockVersion := by
      rw [hprepared.version, requiredVersion, hpolicy]
      rfl
    rw [historyHeaders_snoc hprepared.decode]
    refine hs.snoc ?_ hversion hvalid ?_ hfirst ?_ hunit (hsame.cumulativeWork ▸ hadd)
      hsame.currentTarget hsame.timestamp hsame.targetHistory
    · rw [hprepared.height_eq hpast.tipOf, hpast.length_historyHeaders]
    · intro hne
      exact (hprepared.continues (hpast.tied.hasTip.mpr hne)).2.2
    · intro hne hmod
      have hlast := hlater hne
      rwa [if_neg hmod] at hlast

theorem Reaches.targetsScheduled {c : ChainContext} {policy : PowPolicy}
    (hpolicy : c.powPolicy = some policy) {blocks : List Bytes} {s : ChainState}
    (h : Reaches c blocks s) : TargetsScheduled policy (historyHeaders blocks) := by
  refine h.invariant (P := fun blocks _ => TargetsScheduled policy (historyHeaders blocks)) ?_ ?_
  · intro s _ k header hget
    simp [historyHeaders_nil] at hget
  · intro past s bytes b flags candidate s' hpast hP hprepared _ k header hget hk
    obtain ⟨-, hlater⟩ := hprepared.required hpolicy hpast (hpast.targeted hpolicy)
    rw [historyHeaders_snoc hprepared.decode] at hget ⊢
    rcases Nat.lt_or_ge k (historyHeaders past).length with hlt | hge
    · rw [List.getElem?_append_left hlt] at hget
      rw [List.take_append_of_le_length hlt.le, List.getElem?_append_left (by omega)]
      exact hP k header hget hk
    · rw [List.getElem?_append_right hge, List.getElem?_singleton] at hget
      split at hget
      · next hzero =>
          obtain rfl : k = (historyHeaders past).length := by omega
          obtain rfl := Option.some.inj hget
          rw [List.take_left, List.getElem?_append_left (by omega), ← List.getLast?_eq_getElem?]
          exact hlater (List.ne_nil_of_length_pos hk)
      · simp at hget

/-- Along every accepted proof-of-work history each target is that of the retarget rule
over the full history, the window is the current epoch of its headers, the required
target exists below the last height, and the cumulative work is the exact sum. -/
theorem targets_and_work_exact {c : ChainContext} {policy : PowPolicy}
    (hpolicy : c.powPolicy = some policy) {blocks : List Bytes} {s : ChainState}
    (h : Accepts c blocks s) :
    (historyHeaders blocks).length = blocks.length ∧
      TargetsScheduled policy (historyHeaders blocks) ∧
      s.targetHistory =
        ((historyHeaders blocks).drop (s.height.toNat / 60 * 60)).map historyEntry ∧
      s.targetHistory.length = s.height.toNat % 60 + 1 ∧ s.targetHistory.length ≤ 60 ∧
      (∀ past t, Reaches c past t → (t.hasTip = true → t.height ≠ uint64Max) →
        ∃ target, chainRequiredTarget c t = .ok target) ∧
      s.cumulativeWork.toNat = ((historyHeaders blocks).map headerWork).sum := by
  obtain ⟨hne, hreach⟩ := accepts_iff.mp h
  have htargeted := hreach.targeted hpolicy
  have hheaders : historyHeaders blocks ≠ [] := by
    rw [← List.length_pos_iff, hreach.length_historyHeaders, List.length_pos_iff]
    exact hne
  have hheight := hreach.tied.height hheaders
  have hindex : (historyHeaders blocks).length - 1 = s.height.toNat := by omega
  have hlength := htargeted.length_window hheaders
  rw [hindex] at hlength
  refine ⟨hreach.length_historyHeaders, hreach.targetsScheduled hpolicy, ?_, hlength, ?_, ?_,
    htargeted.work⟩
  · rw [htargeted.window, Epochs.current, hindex]
  · rw [hlength]
    exact Nat.mod_lt _ (by norm_num)
  · intro past t ht hbelow
    have hcontext : contextValid c = .ok () := by
      obtain ⟨t₀, hinit, -⟩ := ht
      exact (chainInitialize_eq_ok hinit).1
    have hstored : t.Stored := ht.preserves stored_preserved (emptyState_stored c)
    obtain ⟨target, htarget, -⟩ := (ht.targeted hpolicy).required hpolicy
      (contextValid_target hpolicy hcontext) ht.tied hcontext hstored hbelow
    exact ⟨target, htarget⟩

end

section Sample

attribute [local instance] Sample.primitives

open Sample

theorem sample_targets_and_work : ∃ (policy : PowPolicy) (s : ChainState),
    context.powPolicy = some policy ∧ Accepts context history s ∧
      s.cumulativeWork.toNat = ((historyHeaders history).map headerWork).sum := by
  obtain ⟨s, hs⟩ := accepts_history
  obtain ⟨-, -, -, -, -, -, hwork⟩ := targets_and_work_exact rfl hs
  exact ⟨_, s, rfl, hs, hwork⟩

end Sample

end StnChain
