import StnChain.Economy.Share
import StnChain.Support.DigitWords

/-!
# Exact target arithmetic

The digit loops of `stn_pow.c` and of the share target compute what the documents say
over unbounded integers.  The retarget rule is the scaled and divided target between one
and the largest target, also when its loops run on 32-bit words; the work of a target is
the exact quotient, and its sums never reach `2 ^ 320`; the share target is ten times
the target, capped.
-/

namespace StnChain

open BigEndian

theorem toNat_maxTarget : maxTarget.toNat = 2 ^ 255 - 1 := rfl

/-! ## The retarget rule -/

/-- `factor`, as the 32-bit word the source computes. -/
def retargetFactorWord (first last : UInt64) : UInt32 :=
  let span := if last ≤ first then 0 else last - first
  if span < 900 then 900 else if span > 14400 then 14400 else span.toUInt32

/-- `retarget` on 32-bit words: the carry of the product is cut into two octets. -/
def retargetWord (target : Octets 32) (factor : UInt32) : Octets 32 :=
  let product := Digits.scaleWord factor 0 (octetBytes target)
  let scaled := [(product.1 >>> 8).toUInt8, (product.1 &&& 255).toUInt8] ++ product.2
  let quotient := (Digits.divideWord 3600 0 scaled).1
  if byteAt quotient 0 ≠ 0 ∨ byteAt quotient 1 ≠ 0 ∨ byteAt quotient 2 ≥ 128 then maxTarget
  else
    let result := octetsAt quotient 2 32
    if targetValidate result = .ok () then result
    else ofDigits 32 ((octetBytes result).take 31 ++ [1])

/-- The seconds of a window, clamped between a quarter of and four times the intended hour. -/
def clampedSpan (first last : UInt64) : ℕ :=
  max 900 (min 14400 (last.toNat - first.toNat))

/-- The retargeted value over unbounded integers. -/
def exactRetarget (target span : ℕ) : ℕ :=
  min (2 ^ 255 - 1) (max 1 (target * span / 3600))

theorem toNat_span (first last : UInt64) :
    (if last ≤ first then 0 else last - first).toNat = last.toNat - first.toNat := by
  split
  · next hle =>
      have hle := UInt64.le_iff_toNat_le.mp hle
      exact (Nat.sub_eq_zero_of_le hle).symm
  · next hlt =>
      have hle : first ≤ last := UInt64.le_of_lt (UInt64.not_le.mp hlt)
      exact UInt64.toNat_sub_of_le _ _ hle

theorem retargetFactor_eq (first last : UInt64) :
    retargetFactor first last = clampedSpan first last := by
  have hspan := toNat_span first last
  simp only [retargetFactor, clampedSpan]
  generalize (if last ≤ first then 0 else last - first) = span at hspan ⊢
  rw [← hspan]
  split
  · next hlow =>
      have hlow : span.toNat < 900 := UInt64.lt_iff_toNat_lt.mp hlow
      omega
  · next hlow =>
      have hlow : 900 ≤ span.toNat := UInt64.le_iff_toNat_le.mp (UInt64.not_lt.mp hlow)
      split
      · next hhigh =>
          have hhigh : 14400 < span.toNat := UInt64.lt_iff_toNat_lt.mp hhigh
          omega
      · next hhigh =>
          have hhigh : span.toNat ≤ 14400 := UInt64.le_iff_toNat_le.mp (UInt64.not_lt.mp hhigh)
          omega

theorem toNat_retargetFactorWord (first last : UInt64) :
    (retargetFactorWord first last).toNat = retargetFactor first last := by
  simp only [retargetFactorWord, retargetFactor]
  generalize (if last ≤ first then 0 else last - first) = span
  split
  · rfl
  · split
    · rfl
    · next hhigh =>
        have hhigh : span.toNat ≤ 14400 := UInt64.le_iff_toNat_le.mp (UInt64.not_lt.mp hhigh)
        rw [UInt64.toNat_toUInt32]
        exact Nat.mod_eq_of_lt (by omega)

theorem retargetFactor_le (first last : UInt64) : retargetFactor first last ≤ 14400 := by
  rw [retargetFactor_eq, clampedSpan]
  omega

/-- The words of the multiplication and of the division never wrap. -/
theorem retargetWord_eq {target : Octets 32} {factor : UInt32} (h : factor.toNat ≤ 14400) :
    retargetWord target factor = retarget target factor.toNat := by
  have hzero : (0 : UInt32).toNat = 0 := rfl
  have hdivisor : (3600 : UInt32).toNat = 3600 := rfl
  obtain ⟨hcarry, hdigits⟩ := @Digits.scaleWord_eq factor 0 (by omega)
    (by rw [hzero]; exact Nat.zero_le _) (octetBytes target)
  rw [hzero] at hcarry hdigits
  have hhigh : ((Digits.scaleWord factor 0 (octetBytes target)).1 >>> 8).toUInt8 =
      UInt8.ofNat ((Digits.scale factor.toNat 0 (octetBytes target)).1 / 256) := by
    have height : (8 : UInt32).toNat % 32 = 8 := rfl
    apply UInt8.toNat_inj.mp
    rw [UInt32.toNat_toUInt8, UInt32.toNat_shiftRight, height, Nat.shiftRight_eq_div_pow, hcarry,
      UInt8.toNat_ofNat']
  have hscaled : [((Digits.scaleWord factor 0 (octetBytes target)).1 >>> 8).toUInt8,
        ((Digits.scaleWord factor 0 (octetBytes target)).1 &&& 255).toUInt8] ++
          (Digits.scaleWord factor 0 (octetBytes target)).2 =
      wireWrite 2 (Digits.scale factor.toNat 0 (octetBytes target)).1 ++
        (Digits.scale factor.toNat 0 (octetBytes target)).2 := by
    have hwrite : wireWrite 2 (Digits.scale factor.toNat 0 (octetBytes target)).1 =
        [UInt8.ofNat ((Digits.scale factor.toNat 0 (octetBytes target)).1 / 256),
          UInt8.ofNat (Digits.scale factor.toNat 0 (octetBytes target)).1] := by
      simp [wireWrite, write]
    rw [hhigh, Digits.toUInt8_and_255 hcarry, hdigits, hwrite]
  have hquotient (p : Bytes) : (Digits.divideWord 3600 0 p).1 = (Digits.divide 3600 0 p).1 :=
    (Digits.divideWord_eq (by rw [hdivisor]; norm_num) (by decide) p).1
  simp only [retargetWord, retarget, hscaled, hquotient]

/-- What the first digits of a quotient say of its value. -/
theorem quotient_exceeds_iff {quotient : Bytes} (h : quotient.length = 34) :
    (byteAt quotient 0 ≠ 0 ∨ byteAt quotient 1 ≠ 0 ∨ byteAt quotient 2 ≥ 128) ↔
      2 ^ 255 ≤ read quotient := by
  match quotient, h with
  | a :: b :: c :: rest, h =>
      have hrest : rest.length = 31 := by simpa using h
      have hlow := read_lt rest
      rw [hrest] at hlow
      have hc := c.toNat_lt
      have ha (x : UInt8) : x ≠ 0 ↔ 0 < x.toNat := by
        rw [Nat.pos_iff_ne_zero, Ne, Ne, ← UInt8.toNat_inj]
        rfl
      have htop : c ≥ 128 ↔ 128 ≤ c.toNat := UInt8.le_iff_toNat_le
      have h0 : byteAt (a :: b :: c :: rest) 0 = a := rfl
      have h1 : byteAt (a :: b :: c :: rest) 1 = b := rfl
      have h2 : byteAt (a :: b :: c :: rest) 2 = c := rfl
      rw [h0, h1, h2, ha, ha, htop]
      simp only [read_cons, List.length_cons, hrest]
      constructor
      · rintro (hpos | hpos | hpos)
        · have := Nat.mul_le_mul_right (256 ^ 33) hpos
          omega
        · have := Nat.mul_le_mul_right (256 ^ 32) hpos
          omega
        · calc
            2 ^ 255 = 128 * 256 ^ 31 := by norm_num
            _ ≤ c.toNat * 256 ^ 31 := Nat.mul_le_mul_right _ hpos
            _ ≤ a.toNat * 256 ^ (31 + 1 + 1) +
                (b.toNat * 256 ^ (31 + 1) + (c.toNat * 256 ^ 31 + read rest)) := by omega
      · intro hle
        by_contra hnone
        omega

/-- A quotient below the bound is the number its last digits denote. -/
theorem toNat_quotient {quotient : Bytes} (h : quotient.length = 34)
    (hlt : read quotient < 2 ^ 255) : (octetsAt quotient 2 32).toNat = read quotient := by
  match quotient, h with
  | a :: b :: rest, h =>
      have hrest : rest.length = 32 := by simpa using h
      have hfield : field (a :: b :: rest) 2 32 = rest := by
        rw [field, List.drop_succ_cons, List.drop_succ_cons, List.drop_zero]
        exact List.take_of_length_le (le_of_eq hrest)
      rw [toNat_octetsAt, wireRead, hfield]
      simp only [read_cons, List.length_cons, hrest] at hlt ⊢
      omega

/-- The digits of the retarget rule are the exact value between its two bounds. -/
theorem toNat_retarget {target : Octets 32} {factor : ℕ} (hfactor : factor ≤ 14400) :
    (retarget target factor).toNat = exactRetarget target.toNat factor := by
  have hexact := Digits.read_scale factor 0 (octetBytes target)
  have hlen := Digits.length_scale factor 0 (octetBytes target)
  have hcarry := Digits.scale_carry_le (Nat.zero_le factor) (octetBytes target)
  have htarget : read (octetBytes target) = target.toNat := read_octetBytes target
  rw [htarget, length_octetBytes, Nat.add_zero] at hexact
  rw [length_octetBytes] at hlen
  -- Two octets hold the carry of the product, so no digit of it is lost.
  have hscaled : read (wireWrite 2 (Digits.scale factor 0 (octetBytes target)).1 ++
      (Digits.scale factor 0 (octetBytes target)).2) = target.toNat * factor := by
    rw [read_append, hlen, ← hexact, wireWrite, read_write_of_lt (by omega)]
  have hquotient := Digits.read_divide_zero (by norm_num : 0 < 3600)
    (wireWrite 2 (Digits.scale factor 0 (octetBytes target)).1 ++
      (Digits.scale factor 0 (octetBytes target)).2)
  rw [hscaled] at hquotient
  have hlength : (Digits.divide 3600 0 (wireWrite 2 (Digits.scale factor 0 (octetBytes target)).1 ++
      (Digits.scale factor 0 (octetBytes target)).2)).1.length = 34 := by
    rw [Digits.length_divide, List.length_append, hlen, wireWrite, length_write]
  simp only [retarget, exactRetarget]
  generalize (Digits.divide 3600 0 (wireWrite 2 (Digits.scale factor 0 (octetBytes target)).1 ++
    (Digits.scale factor 0 (octetBytes target)).2)).1 = quotient at hquotient hlength ⊢
  rw [← hquotient]
  split
  · next hover =>
      have hlarge := (quotient_exceeds_iff hlength).mp hover
      rw [toNat_maxTarget]
      omega
  next hfits =>
  have hsmall : read quotient < 2 ^ 255 :=
    not_le.mp (mt (quotient_exceeds_iff hlength).mpr hfits)
  have hvalue := toNat_quotient hlength hsmall
  split
  · next hvalid =>
      have hpos := (targetValidate_eq_ok_iff.mp hvalid).1
      omega
  next hinvalid =>
  have hzero : read quotient = 0 := by
    by_contra hne
    apply hinvalid
    rw [targetValidate_eq_ok_iff, hvalue]
    exact ⟨Nat.pos_of_ne_zero hne, hsmall⟩
  have hclear : octetsAt quotient 2 32 = 0 := by
    apply BitVec.eq_of_toNat_eq
    rw [hvalue, hzero]
    rfl
  rw [hclear, hzero]
  rfl

/-- A value between the two bounds is a valid target. -/
theorem targetValidate_of_exactRetarget {target : Octets 32} {value span : ℕ}
    (h : target.toNat = exactRetarget value span) : targetValidate target = .ok () := by
  rw [targetValidate_eq_ok_iff, h, exactRetarget]
  omega

theorem targetHistoryValid_targets {height : UInt64} {bootstrap : Octets 32} {count i : ℕ}
    {history : List BlockHeader}
    (h : targetHistoryValid height bootstrap count i history = .ok ()) :
    ∀ header ∈ history, targetValidate header.reservedTarget = .ok () := by
  induction history generalizing i with
  | nil => simp
  | cons header rest ih =>
      simp only [targetHistoryValid] at h
      split at h
      · simp at h
      split at h
      · simp at h
      next hvalid =>
      split at h
      · simp at h
      · exact List.forall_mem_cons.mpr ⟨hvalid, ih h⟩

/-- The retarget rule always gives a valid target.  At a window boundary every admitted
history gives the exact value for its last target and its two timestamps, and the loops
compute it on 32-bit words. -/
theorem targetNext_exact (height : UInt64) (bootstrap : Octets 32) (history : List BlockHeader) :
    (∀ target, targetNext height bootstrap history = .ok target →
      targetValidate target = .ok ()) ∧
    (60 ≤ height → height % 60 = 0 → targetValidate bootstrap = .ok () → history.length = 60 →
      targetHistoryValid height bootstrap 60 0 history = .ok () →
      ∃ first last target, history.head? = some first ∧ history.getLast? = some last ∧
        targetNext height bootstrap history = .ok target ∧
        target.toNat = exactRetarget last.reservedTarget.toNat
          (clampedSpan first.timestamp last.timestamp) ∧
        target = retargetWord last.reservedTarget
          (retargetFactorWord first.timestamp last.timestamp)) := by
  constructor
  · intro target h
    simp only [targetNext] at h
    split at h
    · simp at h
    next hbootstrap =>
    generalize (if height = 0 then 0 else if 60 ≤ height ∧ height % 60 = 0 then 60 else 1) =
      required at h
    split at h
    · simp at h
    split at h
    · simp at h
    split at h
    · simp at h
    next hhistory =>
    split at h
    · next first last hfirst hlast =>
        have hmem : last ∈ history := List.mem_of_getLast? hlast
        split at h
        · obtain rfl := Except.ok.inj h
          split
          · exact hbootstrap
          · exact targetHistoryValid_targets hhistory last hmem
        · obtain rfl := Except.ok.inj h
          exact targetValidate_of_exactRetarget (toNat_retarget (retargetFactor_le _ _))
    · obtain rfl := Except.ok.inj h
      exact hbootstrap
  · intro hle hmod hbootstrap hlength hhistory
    obtain ⟨first, rest, hcons⟩ := List.exists_cons_of_length_pos (l := history) (by omega)
    have hfirst : history.head? = some first := by rw [hcons]; rfl
    obtain ⟨last, hlast⟩ : ∃ last, history.getLast? = some last :=
      ⟨_, List.getLast?_eq_some_getLast (by rw [hcons]; exact List.cons_ne_nil _ _)⟩
    have hne : height ≠ 0 := by
      rintro rfl
      exact absurd hle (by decide)
    have hfactor := retargetFactor_le first.timestamp last.timestamp
    refine ⟨first, last, retarget last.reservedTarget
      (retargetFactor first.timestamp last.timestamp), hfirst, hlast, ?_, ?_, ?_⟩
    · simp only [targetNext, hbootstrap, hle, hmod, hne, hlength, hhistory, hfirst, hlast,
        and_self, if_true, if_false, lt_irrefl, ne_eq, not_true_eq_false]
    · rw [toNat_retarget hfactor, retargetFactor_eq]
    · rw [retargetWord_eq (by rw [toNat_retargetFactorWord]; exact hfactor),
        toNat_retargetFactorWord]

/-- The first window of a chain whose blocks come a minute apart. -/
def minuteWindow : List BlockHeader :=
  (List.range 60).map fun i => {
    version := powBlockVersion, flags := 0, networkId := 0, previousHash := 0
    height := UInt64.ofNat i, timestamp := UInt64.ofNat (60 * i), transactionCommitment := 0
    reservedTarget := maxTarget, reservedWorkNonce := 0, transactionCount := 0, bodyLength := 0 }

/-- A first window of 59 minutes shrinks the target by one sixtieth. -/
theorem targetNext_minuteWindow : ∃ target, targetNext 60 maxTarget minuteWindow = .ok target ∧
    target.toNat = (2 ^ 255 - 1) * 3540 / 3600 := by
  obtain ⟨first, last, target, hfirst, hlast, hnext, hvalue, -⟩ :=
    (targetNext_exact 60 maxTarget minuteWindow).2 (by decide) (by decide) (by decide) (by decide)
      (by decide +kernel)
  refine ⟨target, hnext, ?_⟩
  have hspan : minuteWindow.head?.map (fun h => h.timestamp) = some 0 ∧
      minuteWindow.getLast?.map (fun h => (h.timestamp, h.reservedTarget)) =
        some (3540, maxTarget) := by decide +kernel
  rw [hfirst, hlast] at hspan
  obtain ⟨hstart, hend⟩ := hspan
  have hstart : first.timestamp = 0 := Option.some.inj hstart
  have hend : (last.timestamp, last.reservedTarget) = (3540, maxTarget) := Option.some.inj hend
  obtain ⟨hend, htarget⟩ := Prod.mk.inj hend
  rw [hvalue, hstart, hend, htarget]
  decide +kernel

/-! ## Work -/

theorem targetWork_valid {target : Octets 32} {work : Work} (h : targetWork target = .ok work) :
    targetValidate target = .ok () := by
  simp only [targetWork] at h
  split at h
  · simp at h
  · next hvalid => exact hvalid

theorem workBound_eq : (2 : ℕ) ^ 320 = 256 ^ 40 := by
  rw [Nat.pow_mul 2 8 40]

theorem work_lt (a : Work) : a.toNat < 2 ^ 320 := by
  have h := read_lt (octetBytes a)
  have hread : read (octetBytes a) = a.toNat := read_octetBytes a
  rwa [hread, length_octetBytes, ← workBound_eq] at h

/-- A sum that does not fit is reported. -/
theorem workAdd_overflow_of_le {a b : Work} (h : 2 ^ 320 ≤ a.toNat + b.toNat) :
    workAdd a b = .error .overflow := by
  simp only [workAdd]
  split
  · rfl
  · next hcarry =>
      have hsum : workAdd a b = .ok (ofDigits 40 (Digits.add (octetBytes a) (octetBytes b)).2) := by
        simp only [workAdd, if_neg hcarry]
      rw [← workAdd_eq_ok_iff.mp hsum] at h
      exact absurd h (not_le.mpr (work_lt _))

/-- Work is the exact quotient and falls with the target; sums of work overflow exactly
from `2 ^ 320` on, and the work of a height, a multiple of the work of its target, never does. -/
theorem work_exact :
    (∀ target, targetValidate target = .ok () → ∃ work, targetWork target = .ok work ∧
      work.toNat = 2 ^ 256 / (target.toNat + 1)) ∧
    (∀ target target' work work', target ≤ target' → targetWork target = .ok work →
      targetWork target' = .ok work' → work' ≤ work) ∧
    (∀ a b sum : Work, workAdd a b = .ok sum ↔ sum.toNat = a.toNat + b.toNat) ∧
    (∀ a b : Work, workAdd a b = .error .overflow ↔ 2 ^ 320 ≤ a.toNat + b.toNat) ∧
    (∀ target (height : UInt64), targetValidate target = .ok () →
      ∃ unit work, targetWork target = .ok unit ∧ workAtHeight target height = .ok work ∧
        work.toNat = (height.toNat + 1) * unit.toNat) := by
  refine ⟨fun target h => targetWork_of_valid h, ?_, fun a b sum => workAdd_eq_ok_iff, ?_, ?_⟩
  · intro target target' work work' hle hwork hwork'
    obtain ⟨exact, hexact, hvalue⟩ := targetWork_of_valid (targetWork_valid hwork)
    obtain ⟨exact', hexact', hvalue'⟩ := targetWork_of_valid (targetWork_valid hwork')
    obtain rfl := Except.ok.inj (hwork.symm.trans hexact)
    obtain rfl := Except.ok.inj (hwork'.symm.trans hexact')
    rw [BitVec.le_def] at hle ⊢
    rw [hvalue, hvalue']
    exact Nat.div_le_div_left (Nat.succ_le_succ hle) (Nat.succ_pos _)
  · intro a b
    constructor
    · intro hover
      by_contra hlt
      rw [workBound_eq, not_le] at hlt
      obtain ⟨sum, hsum, -⟩ := workAdd_of_lt hlt
      rw [hsum] at hover
      simp at hover
    · exact workAdd_overflow_of_le
  · intro target height h
    obtain ⟨unit, hunit, hvalue⟩ := targetWork_of_valid h
    obtain ⟨work, hwork, hproduct⟩ := workAtHeight_of_valid h height
    exact ⟨unit, work, hunit, hwork, by rw [hproduct, hvalue]⟩

/-- The largest target has the least work, two. -/
theorem work_maxTarget : ∃ work, targetWork maxTarget = .ok work ∧ work.toNat = 2 := by
  obtain ⟨work, hwork, hvalue⟩ :=
    work_exact.1 maxTarget (targetValidate_eq_ok_iff.mpr (by rw [toNat_maxTarget]; norm_num))
  refine ⟨work, hwork, ?_⟩
  rw [hvalue, toNat_maxTarget]
  norm_num

/-! ## The share target -/

theorem powCompare_eq_ok_iff {hash target : Octets 32} :
    powCompare hash target = .ok () ↔ targetValidate target = .ok () ∧ hash ≤ target := by
  simp only [powCompare]
  split
  · next status hinvalid =>
      rw [hinvalid]
      simp
  · next hvalid =>
      rw [hvalid]
      split
      · next hle => simp [hle]
      · next hgt => simp [hgt]

/-- A hash that solves a block qualifies for its share target. -/
theorem powCompare_shareTarget {target shareTarget hash : Octets 32}
    (hshare : economyShareTarget target = .ok shareTarget)
    (h : powCompare hash target = .ok ()) : powCompare hash shareTarget = .ok () := by
  obtain ⟨hvalid, hle⟩ := powCompare_eq_ok_iff.mp h
  obtain ⟨hpos, hlt⟩ := targetValidate_eq_ok_iff.mp hvalid
  have hvalue := toNat_economyShareTarget hshare
  rw [powCompare_eq_ok_iff, targetValidate_eq_ok_iff]
  rw [BitVec.le_def] at hle ⊢
  omega

/-- The share target is ten times the target up to the largest target; it is valid,
monotone and no smaller than the target, so that a header that solves its block is
accepted as a share. -/
theorem shareTarget_exact :
    (∀ target, targetValidate target = .ok () →
      ∃ shareTarget, economyShareTarget target = .ok shareTarget ∧
        shareTarget.toNat = min (2 ^ 255 - 1) (10 * target.toNat) ∧
        targetValidate shareTarget = .ok () ∧ target ≤ shareTarget) ∧
    (∀ target target' shareTarget shareTarget', target ≤ target' →
      economyShareTarget target = .ok shareTarget →
      economyShareTarget target' = .ok shareTarget' → shareTarget ≤ shareTarget') ∧
    (∀ (share : ShareEvidence) (provider : HashProvider) header proof,
      share.miner.type = .identity →
      blockHeaderDecode (octetBytes share.templateHeader) = .ok header →
      header.version = powBlockVersion →
      workIdFromEvidence share provider = .ok share.workId →
      shareProof share header provider = .ok proof →
      powCompare proof header.reservedTarget = .ok () →
      shareVerifyEvidence share provider = .ok proof) := by
  refine ⟨?_, ?_, ?_⟩
  · intro target h
    obtain ⟨shareTarget, hshare⟩ := economyShareTarget_of_valid h
    obtain ⟨hpos, hlt⟩ := targetValidate_eq_ok_iff.mp h
    have hvalue := toNat_economyShareTarget hshare
    refine ⟨shareTarget, hshare, by rw [hvalue, min_comm], ?_, ?_⟩
    · rw [targetValidate_eq_ok_iff]
      omega
    · rw [BitVec.le_def]
      omega
  · intro target target' shareTarget shareTarget' hle hshare hshare'
    have hvalue := toNat_economyShareTarget hshare
    have hvalue' := toNat_economyShareTarget hshare'
    rw [BitVec.le_def] at hle ⊢
    omega
  · intro share provider header proof hminer hheader hversion hwork hproof hcompare
    obtain ⟨hvalid, -⟩ := powCompare_eq_ok_iff.mp hcompare
    obtain ⟨shareTarget, hshare⟩ := economyShareTarget_of_valid hvalid
    exact shareVerifyEvidence_of hminer hheader hversion hwork hshare hproof
      (powCompare_shareTarget hshare hcompare)

/-- The largest target is its own share target. -/
theorem shareTarget_maxTarget :
    ∃ shareTarget, economyShareTarget maxTarget = .ok shareTarget ∧
      shareTarget.toNat = 2 ^ 255 - 1 := by
  obtain ⟨shareTarget, hshare, hvalue, -⟩ :=
    shareTarget_exact.1 maxTarget (targetValidate_eq_ok_iff.mpr (by
      rw [toNat_maxTarget]
      norm_num))
  refine ⟨shareTarget, hshare, ?_⟩
  rw [hvalue, toNat_maxTarget]
  norm_num

end StnChain
