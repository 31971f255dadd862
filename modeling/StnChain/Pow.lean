import StnChain.BlockHeader
import StnChain.Support.Digits

/-!
# Proof of work: targets and cumulative work

The retarget rule, the target comparison and the 320-bit work arithmetic of
`stn_pow.c`, and the share target of `stn_economy.c`.  Wide integers are octet
strings computed digit by digit, as in the source.
-/

namespace StnChain

/-- `stn_work`: an unsigned 320-bit number. -/
abbrev Work := Octets 40

/-- `stn_pow_policy`. -/
structure PowPolicy where
  fixedTarget : Octets 32

/-- The array a computed digit string is copied into. -/
def ofDigits (n : ℕ) (p : Bytes) : Octets n :=
  octetsAt p 0 n

/-- The largest target, `2^255 - 1`. -/
def maxTarget : Octets 32 := BitVec.ofNat 256 (2 ^ 255 - 1)

/-! ## The retarget rule -/

/-- The history checks of `stn_target_next`, in entry order. -/
def targetHistoryValid (height : UInt64) (bootstrap : Octets 32) (count : ℕ) :
    ℕ → List BlockHeader → Except DataStatus Unit
  | _, [] => .ok ()
  | i, h :: rest =>
      if h.height ≠ height - UInt64.ofNat count + UInt64.ofNat i ∨
          h.version ≠ powBlockVersion then .error .content
      else
        match targetValidate h.reservedTarget with
        | .error status => .error status
        | .ok () =>
            if height ≤ 60 ∧ h.reservedTarget ≠ bootstrap then .error .content
            else targetHistoryValid height bootstrap count (i + 1) rest

/-- The clamped window span, `factor`. -/
def retargetFactor (first last : UInt64) : ℕ :=
  let span := if last ≤ first then 0 else last - first
  if span < 900 then 900 else if span > 14400 then 14400 else span.toNat

/-- The scaled target of a window boundary. -/
def retarget (target : Octets 32) (factor : ℕ) : Octets 32 :=
  let product := Digits.scale factor 0 (octetBytes target)
  let scaled := wireWrite 2 product.1 ++ product.2
  let quotient := (Digits.divide 3600 0 scaled).1
  if byteAt quotient 0 ≠ 0 ∨ byteAt quotient 1 ≠ 0 ∨ byteAt quotient 2 ≥ 128 then maxTarget
  else
    let result := octetsAt quotient 2 32
    if targetValidate result = .ok () then result
    else ofDigits 32 ((octetBytes result).take 31 ++ [1])

/-- `stn_target_next`. -/
def targetNext (height : UInt64) (bootstrap : Octets 32) (history : List BlockHeader) :
    Except DataStatus (Octets 32) :=
  match targetValidate bootstrap with
  | .error status => .error status
  | .ok () =>
      let boundary := 60 ≤ height ∧ height % 60 = 0
      let required := if height = 0 then 0 else if boundary then 60 else 1
      if history.length < required then .error .unresolved
      else if history.length ≠ required then .error .content
      else
        match targetHistoryValid height bootstrap history.length 0 history with
        | .error status => .error status
        | .ok () =>
            match history.head?, history.getLast? with
            | some first, some last =>
                if ¬ boundary then
                  .ok (if height < 60 then bootstrap else last.reservedTarget)
                else
                  .ok (retarget last.reservedTarget
                    (retargetFactor first.timestamp last.timestamp))
            | _, _ => .ok bootstrap

/-- `stn_pow_compare`. -/
def powCompare (hash target : Octets 32) : Except DataStatus Unit :=
  match targetValidate target with
  | .error status => .error status
  | .ok () => if hash ≤ target then .ok () else .error .work

/-! ## Cumulative work -/

/-- `stn_work_add`. -/
def workAdd (a b : Work) : Except DataStatus Work :=
  let sum := Digits.add (octetBytes a) (octetBytes b)
  if sum.1 ≠ 0 then .error .overflow else .ok (ofDigits 40 sum.2)

/-- The long division of `stn_target_work`: `bits` rounds are left, `remainder`
and `q` are the loop's variables. -/
def targetWorkLoop (denominator : Bytes) : ℕ → Bytes → Work → Except DataStatus Work
  | 0, _, q => .ok q
  | bit + 1, remainder, q =>
      let carry := if bit = 256 then 1 else 0
      let doubled := (Digits.scale 2 carry remainder).2
      if BigEndian.read denominator ≤ BigEndian.read doubled then
        if bit = 256 then .error .overflow
        else targetWorkLoop denominator bit (Digits.subtract doubled denominator).2
          (q ||| BitVec.ofNat 320 (2 ^ bit))
      else targetWorkLoop denominator bit doubled q

/-- `stn_target_work`. -/
def targetWork (target : Octets 32) : Except DataStatus Work :=
  match targetValidate target with
  | .error status => .error status
  | .ok () =>
      let denominator := (Digits.scale 1 1 (0 :: octetBytes target)).2
      targetWorkLoop denominator 257 (List.replicate 33 0) 0

/-- The loop of `stn_work_at_height`.  A 64-bit height is exhausted after at
most 64 halvings, which is the fuel it is started with. -/
def workAtHeightLoop : ℕ → ℕ → Work → Work → Except DataStatus Work
  | 0, _, sum, _ => .ok sum
  | fuel + 1, height, sum, power =>
      if height = 0 then .ok sum
      else
        match (if height % 2 ≠ 0 then workAdd sum power else .ok sum) with
        | .error status => .error status
        | .ok sum =>
            if height / 2 = 0 then .ok sum
            else
              match workAdd power power with
              | .error status => .error status
              | .ok power => workAtHeightLoop fuel (height / 2) sum power

/-- `stn_work_at_height`. -/
def workAtHeight (target : Octets 32) (height : UInt64) : Except DataStatus Work :=
  match targetWork target with
  | .error status => .error status
  | .ok unit =>
      match workAtHeightLoop 64 height.toNat 0 unit with
      | .error status => .error status
      | .ok sum => workAdd sum unit

/-! ## The share target -/

/-- `STN_SHARE_FACTOR`. -/
def shareFactor : ℕ := 10

/-- `stn_economy_share_target`. -/
def economyShareTarget (chainTarget : Octets 32) : Except DataStatus (Octets 32) :=
  match targetValidate chainTarget with
  | .error status => .error status
  | .ok () =>
      let product := Digits.scale shareFactor 0 (octetBytes chainTarget)
      if product.1 ≠ 0 ∨ byteAt product.2 0 ≥ 0x80 then .ok maxTarget
      else .ok (ofDigits 32 product.2)

/-- Every valid target has a share target. -/
theorem economyShareTarget_of_valid {target : Octets 32} (h : targetValidate target = .ok ()) :
    ∃ shareTarget, economyShareTarget target = .ok shareTarget := by
  simp only [economyShareTarget, h]
  split
  · exact ⟨_, rfl⟩
  · exact ⟨_, rfl⟩

/-- The share target is ten times the target, capped at the largest target. -/
theorem toNat_economyShareTarget {target shareTarget : Octets 32}
    (h : economyShareTarget target = .ok shareTarget) :
    shareTarget.toNat = min (10 * target.toNat) (2 ^ 255 - 1) := by
  simp only [economyShareTarget] at h
  split at h
  · simp at h
  have hexact := Digits.read_scale shareFactor 0 (octetBytes target)
  have hlen := Digits.length_scale shareFactor 0 (octetBytes target)
  rcases hproduct : Digits.scale shareFactor 0 (octetBytes target) with ⟨carry, digits⟩
  simp only [hproduct, length_octetBytes] at hexact hlen h
  have hread : BigEndian.read (octetBytes target) = target.toNat := read_octetBytes target
  rw [hread] at hexact
  obtain ⟨b, rest, rfl⟩ := List.exists_cons_of_length_pos (l := digits) (by omega)
  have hrest : rest.length = 31 := by simpa using hlen
  have hlow := BigEndian.read_lt rest
  rw [BigEndian.read_cons, hrest] at hexact
  rw [hrest] at hlow
  have hfirst : byteAt (b :: rest) 0 = b := rfl
  have hb := b.toNat_lt
  rw [hfirst] at h
  rw [shareFactor] at hexact
  split at h
  · next hover =>
      obtain rfl := Except.ok.inj h
      have hmax : maxTarget.toNat = 2 ^ 255 - 1 := rfl
      have hlarge : 2 ^ 255 ≤ 10 * target.toNat := by
        rcases hover with hcarry | htop
        · have hpos := Nat.pos_of_ne_zero hcarry
          omega
        · have htop' : 128 ≤ b.toNat := UInt8.le_iff_toNat_le.mp htop
          omega
      rw [hmax]
      omega
  · next hfits =>
      obtain rfl := Except.ok.inj h
      obtain ⟨hcarry, htop⟩ := not_or.mp hfits
      have hcarry : carry = 0 := not_not.mp hcarry
      have htop : b.toNat < 128 := UInt8.lt_iff_toNat_lt.mp (UInt8.not_le.mp htop)
      have hvalue : (ofDigits 32 (b :: rest)).toNat = b.toNat * 256 ^ 31 + BigEndian.read rest := by
        rw [ofDigits, toNat_octetsAt, wireRead,
          BigEndian.field_zero_length (by simp [hrest]), BigEndian.read_cons, hrest]
      rw [hcarry, Nat.zero_mul, Nat.zero_add] at hexact
      rw [hvalue]
      omega

theorem powCompare_eq_ok {hash target : Octets 32} (h : powCompare hash target = .ok ()) :
    hash.toNat ≤ target.toNat := by
  simp only [powCompare] at h
  split at h
  · simp at h
  split at h
  · next hle => exact BitVec.le_def.mp hle
  · simp at h

/-! ## Exact work -/

open BigEndian

theorem targetValidate_eq_ok_iff {target : Octets 32} :
    targetValidate target = .ok () ↔ 0 < target.toNat ∧ target.toNat < 2 ^ 255 := by
  have hlen := length_octetBytes target
  obtain ⟨b, rest, hcons⟩ := List.exists_cons_of_length_pos (l := octetBytes target) (by omega)
  have hrest : rest.length = 31 := by
    rw [hcons] at hlen
    exact Nat.succ.inj hlen
  have hread : b.toNat * 256 ^ 31 + read rest = target.toNat := by
    rw [← read_octetBytes target, hcons, read_cons, hrest]
  have hlow := read_lt rest
  rw [hrest] at hlow
  have hfirst : byteAt (octetBytes target) 0 = b := by rw [hcons]; rfl
  have hzero : target ≠ 0 ↔ 0 < target.toNat := by
    rw [Nat.pos_iff_ne_zero, Ne, Ne, ← BitVec.toNat_inj]
    rfl
  have hhigh : b < 0x80 ↔ target.toNat < 2 ^ 255 := by
    rw [UInt8.lt_iff_toNat_lt]
    have hconst : (0x80 : UInt8).toNat = 128 := rfl
    rw [hconst]
    omega
  simp only [targetValidate, hfirst, hzero, hhigh]
  split
  · next h => exact ⟨fun _ => h, fun _ => rfl⟩
  · next h =>
      simp only [reduceCtorEq, false_iff]
      exact h

theorem toNat_ofDigits {n : ℕ} {p : Bytes} (h : p.length = n) : (ofDigits n p).toNat = read p := by
  rw [ofDigits, toNat_octetsAt, wireRead, field_zero_length h]

theorem toNat_zero_octets (n : ℕ) : (0 : Octets n).toNat = 0 := by simp

/-- Adding work fails exactly when the sum does not fit. -/
theorem workAdd_eq_ok_iff {a b sum : Work} :
    workAdd a b = .ok sum ↔ sum.toNat = a.toNat + b.toNat := by
  have hlengths : (octetBytes a).length = (octetBytes b).length := by
    rw [length_octetBytes, length_octetBytes]
  have hexact := Digits.read_add hlengths
  have hlen := Digits.length_add hlengths
  have hread : read (octetBytes a) = a.toNat := read_octetBytes a
  have hread' : read (octetBytes b) = b.toNat := read_octetBytes b
  rw [hread, hread', length_octetBytes] at hexact
  rw [length_octetBytes] at hlen
  have hvalue := toNat_ofDigits hlen
  have hsum := read_lt (octetBytes sum)
  have hread'' : read (octetBytes sum) = sum.toNat := read_octetBytes sum
  rw [hread'', length_octetBytes] at hsum
  simp only [workAdd]
  split
  · next hcarry =>
      simp only [reduceCtorEq, false_iff]
      have hpos := Nat.pos_of_ne_zero hcarry
      intro heq
      have : 1 * 256 ^ 40 ≤ (Digits.add (octetBytes a) (octetBytes b)).1 * 256 ^ 40 :=
        Nat.mul_le_mul_right _ hpos
      omega
  · next hcarry =>
      rw [not_not.mp hcarry, Nat.zero_mul, Nat.zero_add] at hexact
      rw [Except.ok.injEq, ← BitVec.toNat_inj, hvalue, hexact]
      exact eq_comm

/-- Setting a clear bit above which a number only has higher bits adds the power. -/
theorem toNat_or_two_pow {w : ℕ} {q : BitVec w} {k : ℕ} (hk : k < w)
    (h : 2 ^ (k + 1) ∣ q.toNat) : (q ||| BitVec.ofNat w (2 ^ k)).toNat = q.toNat + 2 ^ k := by
  obtain ⟨m, hm⟩ := h
  have hlt : 2 ^ k < 2 ^ w := Nat.pow_lt_pow_right (by norm_num) hk
  have hlow : 2 ^ k < 2 ^ (k + 1) := Nat.pow_lt_pow_right (by norm_num) (Nat.lt_succ_self k)
  rw [BitVec.toNat_or, BitVec.toNat_ofNat, Nat.mod_eq_of_lt hlt, hm,
    Nat.two_pow_add_eq_or_of_lt hlow m]

/-- The rounds after the first divide what is left of the numerator. -/
theorem targetWorkLoop_eq {denominator : Bytes} (hlength : denominator.length = 33)
    (hpos : 0 < read denominator) (hdenominator : read denominator ≤ 2 ^ 255) {bits : ℕ}
    (hbits : bits ≤ 256) {remainder : Bytes} (hremainder : remainder.length = 33)
    (hlt : read remainder < read denominator) {q : Work} (hq : 2 ^ bits ∣ q.toNat) :
    ∃ work, targetWorkLoop denominator bits remainder q = .ok work ∧
      work.toNat = q.toNat + read remainder * 2 ^ bits / read denominator := by
  induction bits generalizing remainder q with
  | zero =>
      refine ⟨q, rfl, ?_⟩
      rw [pow_zero, Nat.mul_one, Nat.div_eq_of_lt hlt, Nat.add_zero]
  | succ bit ih =>
      have hne : bit ≠ 256 := by omega
      have hexact := Digits.read_scale 2 0 remainder
      have hlen := Digits.length_scale 2 0 remainder
      have hbound := read_lt (Digits.scale 2 0 remainder).2
      rw [hlen, hremainder] at hbound
      rw [hremainder] at hexact hlen
      have hcarry : (Digits.scale 2 0 remainder).1 = 0 := by
        by_contra hne
        have : 1 * 256 ^ 33 ≤ (Digits.scale 2 0 remainder).1 * 256 ^ 33 :=
          Nat.mul_le_mul_right _ (Nat.pos_of_ne_zero hne)
        omega
      have hdoubled : read (Digits.scale 2 0 remainder).2 = 2 * read remainder := by
        rw [hcarry] at hexact
        omega
      have hhalf : 2 ^ bit ∣ q.toNat := (pow_dvd_pow 2 (Nat.le_succ bit)).trans hq
      simp only [targetWorkLoop, if_neg hne, hdoubled]
      by_cases hle : read denominator ≤ 2 * read remainder
      · have hlengths : (Digits.scale 2 0 remainder).2.length = denominator.length := by
          rw [hlen, hlength]
        have hsub := Digits.read_subtract hlengths
        have hsublen := Digits.length_subtract hlengths
        have hsubbound := read_lt (Digits.subtract (Digits.scale 2 0 remainder).2 denominator).2
        rw [hsublen, hlen] at hsubbound
        rw [hdoubled, hlen] at hsub
        have hborrow : (Digits.subtract (Digits.scale 2 0 remainder).2 denominator).1 = 0 := by
          by_contra hne
          have : 1 * 256 ^ 33 ≤
              (Digits.subtract (Digits.scale 2 0 remainder).2 denominator).1 * 256 ^ 33 :=
            Nat.mul_le_mul_right _ (Nat.pos_of_ne_zero hne)
          omega
        rw [hborrow, Nat.zero_mul, Nat.add_zero] at hsub
        have hset := toNat_or_two_pow (by omega : bit < 320) hq
        have hnext : 2 ^ bit ∣ (q ||| BitVec.ofNat 320 (2 ^ bit)).toNat := by
          rw [hset]
          exact Nat.dvd_add hhalf dvd_rfl
        obtain ⟨work, hwork, hvalue⟩ := ih (by omega) (hsublen.trans hlen) (by omega) hnext
        refine ⟨work, by rw [if_pos hle]; exact hwork, ?_⟩
        have hsplit : read remainder * 2 ^ (bit + 1) =
            read (Digits.subtract (Digits.scale 2 0 remainder).2 denominator).2 * 2 ^ bit +
              read denominator * 2 ^ bit := by
          rw [← Nat.add_mul, hsub, pow_succ]
          ring
        rw [hvalue, hset, hsplit, Nat.add_mul_div_left _ _ hpos]
        omega
      · obtain ⟨work, hwork, hvalue⟩ := ih (by omega) hlen (by omega) hhalf
        refine ⟨work, by rw [if_neg hle]; exact hwork, ?_⟩
        rw [hvalue, hdoubled, pow_succ]
        congr 2
        ring

/-- The work of a valid target is the quotient of `2 ^ 256` by its successor. -/
theorem targetWork_of_valid {target : Octets 32} (h : targetValidate target = .ok ()) :
    ∃ work, targetWork target = .ok work ∧ work.toNat = 2 ^ 256 / (target.toNat + 1) := by
  obtain ⟨hpos, hlt⟩ := targetValidate_eq_ok_iff.mp h
  have hread : read (0 :: octetBytes target) = target.toNat := by
    have hbyte : (0 : UInt8).toNat = 0 := rfl
    rw [read_cons, hbyte, Nat.zero_mul, Nat.zero_add]
    exact read_octetBytes target
  have hexact := Digits.read_scale 1 1 (0 :: octetBytes target)
  have hlen := Digits.length_scale 1 1 (0 :: octetBytes target)
  rw [hread, List.length_cons, length_octetBytes] at hexact
  rw [List.length_cons, length_octetBytes] at hlen
  have hcarry : (Digits.scale 1 1 (0 :: octetBytes target)).1 = 0 := by
    by_contra hne
    have : 1 * 256 ^ 33 ≤ (Digits.scale 1 1 (0 :: octetBytes target)).1 * 256 ^ 33 :=
      Nat.mul_le_mul_right _ (Nat.pos_of_ne_zero hne)
    omega
  have hdenominator : read (Digits.scale 1 1 (0 :: octetBytes target)).2 = target.toNat + 1 := by
    rw [hcarry] at hexact
    omega
  have hone : read (Digits.scale 2 1 (List.replicate 33 0)).2 = 1 := by decide
  have hfirst : ¬target.toNat + 1 ≤ 1 := by omega
  have hlength : (Digits.scale 2 1 (List.replicate 33 0)).2.length = 33 := Digits.length_scale _ _ _
  have hclear : 2 ^ 256 ∣ (0 : Work).toNat := by
    rw [toNat_zero_octets]
    exact Nat.dvd_zero _
  obtain ⟨work, hwork, hvalue⟩ :=
    targetWorkLoop_eq hlen (by omega) (by omega) le_rfl hlength (by omega) hclear
  refine ⟨work, ?_, ?_⟩
  · simp only [targetWork, h]
    rw [targetWorkLoop]
    simp only [↓reduceIte, hone, hdenominator, if_neg hfirst]
    exact hwork
  · rw [hvalue, hone, hdenominator, Nat.one_mul, toNat_zero_octets, Nat.zero_add]

theorem workAdd_of_lt {a b : Work} (h : a.toNat + b.toNat < 256 ^ 40) :
    ∃ sum, workAdd a b = .ok sum ∧ sum.toNat = a.toNat + b.toNat := by
  have hvalue : (ofDigits 40 (write 40 (a.toNat + b.toNat))).toNat = a.toNat + b.toNat := by
    rw [toNat_ofDigits (length_write _ _), read_write_of_lt h]
  exact ⟨_, workAdd_eq_ok_iff.mpr hvalue, hvalue⟩

/-- The halving loop adds the height's multiple of the power, when that fits. -/
theorem workAtHeightLoop_eq {fuel height : ℕ} (hfuel : height < 2 ^ fuel) {sum power : Work}
    (hfits : sum.toNat + height * power.toNat < 256 ^ 40) :
    ∃ work, workAtHeightLoop fuel height sum power = .ok work ∧
      work.toNat = sum.toNat + height * power.toNat := by
  induction fuel generalizing height sum power with
  | zero =>
      obtain rfl : height = 0 := by omega
      exact ⟨sum, rfl, by rw [Nat.zero_mul, Nat.add_zero]⟩
  | succ fuel ih =>
      by_cases hzero : height = 0
      · subst hzero
        exact ⟨sum, rfl, by rw [Nat.zero_mul, Nat.add_zero]⟩
      have hsplit : height * power.toNat =
          (height % 2) * power.toNat + height / 2 * (power.toNat + power.toNat) := by
        calc
          height * power.toNat = (height % 2 + 2 * (height / 2)) * power.toNat := by
            rw [Nat.mod_add_div]
          _ = (height % 2) * power.toNat + height / 2 * (power.toNat + power.toNat) := by ring
      obtain ⟨sum', hsum', hvalue'⟩ : ∃ sum',
          (if height % 2 ≠ 0 then workAdd sum power else .ok sum) = .ok sum' ∧
            sum'.toNat = sum.toNat + (height % 2) * power.toNat := by
        by_cases hodd : height % 2 ≠ 0
        · have hone : height % 2 = 1 := by omega
          rw [if_pos hodd, hone, Nat.one_mul]
          apply workAdd_of_lt
          rw [hone, Nat.one_mul] at hsplit
          exact lt_of_le_of_lt (by omega) hfits
        · rw [if_neg hodd, not_not.mp hodd, Nat.zero_mul, Nat.add_zero]
          exact ⟨sum, rfl, rfl⟩
      simp only [workAtHeightLoop, if_neg hzero, hsum']
      by_cases hhalf : height / 2 = 0
      · rw [if_pos hhalf]
        rw [hhalf, Nat.zero_mul, Nat.add_zero] at hsplit
        exact ⟨sum', rfl, by rw [hvalue', hsplit]⟩
      · have hpower : power.toNat + power.toNat ≤ height / 2 * (power.toNat + power.toNat) :=
          Nat.le_mul_of_pos_left _ (Nat.pos_of_ne_zero hhalf)
        obtain ⟨double, hdouble, hdoubled⟩ := workAdd_of_lt (a := power) (b := power)
          (lt_of_le_of_lt (by omega) hfits)
        simp only [if_neg hhalf, hdouble]
        rw [hsplit, ← Nat.add_assoc, ← hvalue', ← hdoubled] at hfits ⊢
        exact ih (by rw [pow_succ] at hfuel; omega) hfits

/-- The work of a chain of one valid target. -/
theorem workAtHeight_of_valid {target : Octets 32} (h : targetValidate target = .ok ())
    (height : UInt64) :
    ∃ work, workAtHeight target height = .ok work ∧
      work.toNat = (height.toNat + 1) * (2 ^ 256 / (target.toNat + 1)) := by
  obtain ⟨unit, hunit, hvalue⟩ := targetWork_of_valid h
  have hheight := height.toNat_lt
  have hquotient : unit.toNat ≤ 2 ^ 255 := by
    rw [hvalue]
    have hpos := (targetValidate_eq_ok_iff.mp h).1
    exact (Nat.div_le_div_left (by omega : 2 ≤ target.toNat + 1) (by norm_num)).trans (by norm_num)
  have hproduct : height.toNat * unit.toNat ≤ 2 ^ 64 * 2 ^ 255 :=
    Nat.mul_le_mul hheight.le hquotient
  have hsum : height.toNat * unit.toNat + unit.toNat < 256 ^ 40 := by
    have hpow : (256 : ℕ) ^ 40 = 2 * (2 ^ 64 * 2 ^ 255) := by norm_num
    have hsmall : 2 ^ 255 < 2 ^ 64 * 2 ^ 255 := by norm_num
    rw [hpow]
    omega
  have hfits : (0 : Work).toNat + height.toNat * unit.toNat < 256 ^ 40 := by
    rw [toNat_zero_octets, Nat.zero_add]
    exact lt_of_le_of_lt (Nat.le_add_right _ _) hsum
  obtain ⟨sum, hloop, hloopValue⟩ := workAtHeightLoop_eq hheight hfits
  rw [toNat_zero_octets, Nat.zero_add] at hloopValue
  obtain ⟨work, hwork, hworkValue⟩ := workAdd_of_lt (a := sum) (b := unit) (by rwa [hloopValue])
  refine ⟨work, by simp only [workAtHeight, hunit, hloop, hwork], ?_⟩
  rw [hworkValue, hloopValue, ← hvalue]
  exact (Nat.succ_mul _ _).symm

end StnChain
