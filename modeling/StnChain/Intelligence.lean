import StnChain.Record
import StnChain.Support.Labels

/-!
# The Sentinel intelligence codec

The encoder of `stn_sentinel_intelligence.c` and the grammar of what it writes.  The
validator, the encoder and the decoder each restate the rules; `intelligence_codec` says
that all three mean `SentinelIntelligence.WellFormed`, whose source is a hostname: labels
between dots, none of them empty, too long or with a hyphen at an end.
-/

namespace StnChain

open Labels

/-! ## Encoding -/

/-- `put_field`. -/
def intelligencePutField (bytes : Bytes) : Bytes :=
  wireWrite 2 bytes.length ++ bytes

/-- The octets `stn_sentinel_intelligence_encode` writes. -/
def intelligenceBytes (v : SentinelIntelligence) : Bytes :=
  wireWrite 2 v.version.toNat ++ wireWrite 8 v.observedAt.toNat ++ [v.severity] ++
    intelligencePutField v.classification ++ intelligencePutField v.source ++
    intelligencePutField v.subject ++ octetBytes v.evidenceDigest

/-- `stn_sentinel_intelligence_encode`. -/
def intelligenceEncode (v : SentinelIntelligence) (capacity : ℕ) :
    Except IntelligenceStatus Bytes :=
  match intelligenceValidate v with
  | some status => .error status
  | none =>
      if capacity < 49 + v.classification.length + v.source.length + v.subject.length then
        .error .capacity
      else .ok (intelligenceBytes v)

/-! ## The grammar -/

/-- A label of a hostname. -/
structure HostLabel (label : Bytes) : Prop where
  nonempty : label ≠ []
  bounded : label.length ≤ 63
  permitted : ∀ c ∈ label, alnumLower c = true ∨ c = 0x2d
  leading : label.head? ≠ some 0x2d
  trailing : label.getLast? ≠ some 0x2d

/-- A hostname: labels between dots, of bounded length in all. -/
structure Hostname (source : Bytes) : Prop where
  nonempty : 1 ≤ source.length
  bounded : source.length ≤ 253
  labels : Separated 0x2e HostLabel source

/-- The values of the grammar. -/
structure SentinelIntelligence.WellFormed (v : SentinelIntelligence) : Prop where
  version : v.version = 1
  severity : 1 ≤ v.severity ∧ v.severity ≤ 10
  classification : 1 ≤ v.classification.length ∧ v.classification.length ≤ 64
  classificationPermitted :
    ∀ c ∈ v.classification, alnumLower c = true ∨ c = 0x5f ∨ c = 0x2d
  source : Hostname v.source
  subject : 1 ≤ v.subject.length ∧ v.subject.length ≤ 1024
  subjectPermitted : ∀ c ∈ v.subject, 0x20 ≤ c ∧ c ≤ 0x7e
  evidence : v.evidenceDigest ≠ 0

/-! ## The scan of the source -/

theorem HostLabel.dot_notMem {label : Bytes} (h : HostLabel label) : (0x2e : UInt8) ∉ label := by
  intro hdot
  rcases h.permitted _ hdot with halnum | hhyphen
  · exact absurd halnum (by decide)
  · exact absurd hhyphen (by decide)

/-- What the scan has read of a label. -/
structure LabelStart (label : Bytes) : Prop where
  bounded : label.length ≤ 63
  permitted : ∀ c ∈ label, alnumLower c = true ∨ c = 0x2d
  leading : label.head? ≠ some 0x2d

theorem LabelStart.dot_notMem {label : Bytes} (h : LabelStart label) : (0x2e : UInt8) ∉ label := by
  intro hdot
  rcases h.permitted _ hdot with halnum | hhyphen
  · exact absurd halnum (by decide)
  · exact absurd hhyphen (by decide)

/-- The start of a label is a label unless it is empty or ends with a hyphen. -/
theorem LabelStart.hostLabel_iff {label : Bytes} (h : LabelStart label) {previous : UInt8}
    (hprevious : label ≠ [] → label.getLast? = some previous) :
    HostLabel label ↔ label.length ≠ 0 ∧ previous ≠ 0x2d := by
  rw [Ne, List.length_eq_zero_iff]
  constructor
  · intro hlabel
    refine ⟨hlabel.nonempty, fun hhyphen => hlabel.trailing ?_⟩
    rw [hprevious hlabel.nonempty, hhyphen]
  · rintro ⟨hne, hhyphen⟩
    refine ⟨hne, h.bounded, h.permitted, h.leading, ?_⟩
    rw [hprevious hne, Ne, Option.some.injEq]
    exact hhyphen

/-- A character the scan refuses continues no label. -/
theorem LabelStart.refuses {label : Bytes} {c : UInt8}
    (hrefused : ((!alnumLower c && c ≠ 0x2d) || (label.length = 0 && c = 0x2d) ||
      label.length = 63) = true) (rest : Bytes) : ¬ HostLabel (label ++ [c] ++ rest) := by
  intro hlabel
  simp only [Bool.or_eq_true, Bool.and_eq_true, Bool.not_eq_true', decide_eq_true_eq] at hrefused
  rcases hrefused with (⟨halnum, hhyphen⟩ | ⟨hempty, hhyphen⟩) | hlength
  · rcases hlabel.permitted c (by simp) with hpermitted | heq
    · rw [halnum] at hpermitted
      cases hpermitted
    · exact hhyphen heq
  · have hleading := hlabel.leading
    rw [List.length_eq_zero_iff.mp hempty, hhyphen] at hleading
    exact hleading rfl
  · have hbounded := hlabel.bounded
    rw [List.length_append, List.length_append, List.length_singleton] at hbounded
    omega

/-- The scan accepts what completes the label it is in and is labels after it. -/
theorem sourceLabels_iff (rest : Bytes) {label : Bytes} (h : LabelStart label) {previous : UInt8}
    (hprevious : label ≠ [] → label.getLast? = some previous) :
    sourceLabels label.length previous rest = true ↔ Separated 0x2e HostLabel (label ++ rest) := by
  have hdots : ∀ label, HostLabel label → (0x2e : UInt8) ∉ label := fun _ => HostLabel.dot_notMem
  induction rest generalizing label previous with
  | nil =>
      rw [List.append_nil, separated_of_notMem hdots h.dot_notMem, h.hostLabel_iff hprevious]
      simp [sourceLabels]
  | cons c rest ih =>
      by_cases hdot : c = 0x2e
      · -- A dot closes the label.
        subst hdot
        have hstart : LabelStart [] := ⟨by simp, by simp, by simp⟩
        have hrest : sourceLabels 0 0x2e rest = true ↔ Separated 0x2e HostLabel rest :=
          ih hstart fun hne => absurd rfl hne
        rw [separated_append_cons hdots h.dot_notMem, h.hostLabel_iff hprevious, ← hrest]
        simp only [sourceLabels, ↓reduceIte]
        by_cases hclosed : label.length = 0 ∨ previous = 0x2d
        · rw [if_pos hclosed]
          refine iff_of_false Bool.false_ne_true ?_
          rintro ⟨⟨hne, hhyphen⟩, -⟩
          exact hclosed.elim hne hhyphen
        · rw [if_neg hclosed]
          exact (and_iff_right (not_or.mp hclosed)).symm
      · have hdotted : (0x2e : UInt8) ∉ label ++ [c] := by
          rw [List.mem_append, List.mem_singleton]
          rintro (hin | heq)
          · exact h.dot_notMem hin
          · exact hdot heq.symm
        have hassoc : label ++ c :: rest = label ++ [c] ++ rest := by simp
        simp only [sourceLabels, if_neg hdot]
        by_cases hrefused : ((!alnumLower c && c ≠ 0x2d) || (label.length = 0 && c = 0x2d) ||
            label.length = 63) = true
        · rw [if_pos hrefused, hassoc]
          refine iff_of_false Bool.false_ne_true fun hseparated => ?_
          obtain ⟨tail, htail⟩ := hseparated.head hdotted
          exact LabelStart.refuses hrefused tail htail
        · rw [if_neg hrefused, hassoc]
          have hkept := hrefused
          simp only [Bool.or_eq_true, Bool.and_eq_true, Bool.not_eq_true', decide_eq_true_eq,
            not_or, not_and] at hkept
          obtain ⟨⟨hpermitted, hleading⟩, hlength⟩ := hkept
          have hnext : LabelStart (label ++ [c]) := by
            refine ⟨?_, ?_, ?_⟩
            · rw [List.length_append, List.length_singleton]
              have := h.bounded
              omega
            · intro d hd
              rcases List.mem_append.mp hd with hd | hd
              · exact h.permitted d hd
              · obtain rfl := List.mem_singleton.mp hd
                by_cases halnum : alnumLower d = true
                · exact .inl halnum
                · exact .inr (not_not.mp (hpermitted (by simpa using halnum)))
            · cases label with
              | nil => simpa using hleading rfl
              | cons d label => simpa using h.leading
          have hlength' : label.length + 1 = (label ++ [c]).length := by simp
          rw [hlength']
          exact ih hnext fun _ => List.getLast?_concat

/-- The scan and the length check accept the hostnames. -/
theorem hostname_iff (source : Bytes) :
    Hostname source ↔
      (1 ≤ source.length ∧ source.length ≤ 253) ∧ sourceLabels 0 0 source = true := by
  have hstart : LabelStart [] := ⟨by simp, by simp, by simp⟩
  have hscan := @sourceLabels_iff source [] hstart 0 (by simp)
  rw [List.length_nil, List.nil_append] at hscan
  rw [hscan]
  constructor
  · exact fun h => ⟨⟨h.nonempty, h.bounded⟩, h.labels⟩
  · exact fun h => ⟨h.1.1, h.1.2, h.2⟩

/-- The validator accepts the grammar. -/
theorem intelligenceValidate_eq_none_iff (v : SentinelIntelligence) :
    intelligenceValidate v = none ↔ v.WellFormed := by
  have hclassification :
      (v.classification.all fun c => alnumLower c || c = 0x5f || c = 0x2d) = true ↔
        ∀ c ∈ v.classification, alnumLower c = true ∨ c = 0x5f ∨ c = 0x2d := by
    simp [List.all_eq_true, or_assoc]
  have hpassed {b : Bool} (h : ¬(!b) = true) : b = true := by
    simpa using h
  have hsubject : (v.subject.all fun c => 0x20 ≤ c && c ≤ 0x7e) = true ↔
      ∀ c ∈ v.subject, 0x20 ≤ c ∧ c ≤ 0x7e := by
    simp [List.all_eq_true]
  constructor
  · intro h
    simp only [intelligenceValidate] at h
    split at h
    · cases h
    next hversion =>
    split at h
    · cases h
    next hseverity =>
    split at h
    · cases h
    next hclass =>
    split at h
    · cases h
    next hlength =>
    split at h
    · cases h
    next hsubjectLength =>
    split at h
    · cases h
    next hclassAll =>
    split at h
    · cases h
    next hsource =>
    split at h
    · cases h
    next hsubjectAll =>
    split at h
    · cases h
    next hevidence =>
    rw [not_or, not_lt, not_lt] at hclass hlength hsubjectLength
    have hseverity := not_or.mp hseverity
    exact {
      version := not_not.mp hversion
      severity := ⟨UInt8.not_lt.mp hseverity.1, UInt8.not_lt.mp hseverity.2⟩
      classification := hclass
      classificationPermitted := hclassification.mp (hpassed hclassAll)
      source := (hostname_iff v.source).mpr ⟨hlength, hpassed hsource⟩
      subject := hsubjectLength
      subjectPermitted := hsubject.mp (hpassed hsubjectAll)
      evidence := hevidence }
  · intro h
    obtain ⟨hlength, hsource⟩ := (hostname_iff v.source).mp h.source
    have hclassAll := hclassification.mpr h.classificationPermitted
    have hsubjectAll := hsubject.mpr h.subjectPermitted
    have hseverity : ¬(v.severity < 1 ∨ v.severity > 10) := by
      rw [not_or]
      exact ⟨UInt8.not_lt.mpr h.severity.1, UInt8.not_lt.mpr h.severity.2⟩
    have hclass : ¬(v.classification.length < 1 ∨ v.classification.length > 64) := by
      have := h.classification
      omega
    have hsubjectLength : ¬(v.subject.length < 1 ∨ v.subject.length > 1024) := by
      have := h.subject
      omega
    have hsourceLength : ¬(v.source.length < 1 ∨ v.source.length > 253) := by
      omega
    simp only [intelligenceValidate, h.version, ne_eq, not_true_eq_false, ↓reduceIte,
      if_neg hseverity, if_neg hclass, if_neg hsourceLength, if_neg hsubjectLength, hclassAll,
      hsource, hsubjectAll, Bool.not_true, Bool.false_eq_true, if_neg h.evidence]

/-! ## Round trips -/

theorem length_intelligencePutField (bytes : Bytes) :
    (intelligencePutField bytes).length = 2 + bytes.length := by
  rw [intelligencePutField, List.length_append, length_wireWrite]

theorem length_intelligenceBytes (v : SentinelIntelligence) :
    (intelligenceBytes v).length =
      49 + v.classification.length + v.source.length + v.subject.length := by
  simp only [intelligenceBytes, List.length_append, length_wireWrite, length_octetBytes,
    length_intelligencePutField, List.length_singleton]
  omega

/-- A field that was put is read back, with the offset after it. -/
theorem intelligenceField_put {bytes : Bytes} (h : bytes.length < 2 ^ 16) (pre post : Bytes) :
    intelligenceField (pre ++ (intelligencePutField bytes ++ post)) pre.length =
      some (bytes, pre.length + (intelligencePutField bytes).length) := by
  have hcount : wireRead (pre ++ (intelligencePutField bytes ++ post)) pre.length 2 =
      bytes.length := by
    rw [wireRead_append_right le_rfl, Nat.sub_self, intelligencePutField, List.append_assoc,
      wireRead_append_left (by simp), wireRead_wireWrite (by omega)]
  have hfield : BigEndian.field (pre ++ (intelligencePutField bytes ++ post)) (pre.length + 2)
      bytes.length = bytes := by
    rw [BigEndian.field_append_right rfl, intelligencePutField, List.append_assoc,
      BigEndian.field_append_right (k := 0) (by simp), BigEndian.field_append_left (by simp),
      BigEndian.field_zero_length rfl]
  have hlength : (pre ++ (intelligencePutField bytes ++ post)).length =
      pre.length + (2 + bytes.length + post.length) := by
    rw [List.length_append, List.length_append, length_intelligencePutField]
  have hroom : ¬((pre ++ (intelligencePutField bytes ++ post)).length - pre.length < 2) := by
    omega
  have hfits : ¬(bytes.length >
      (pre ++ (intelligencePutField bytes ++ post)).length - (pre.length + 2)) := by
    omega
  simp only [intelligenceField, if_neg hroom, hcount, if_neg hfits, hfield,
    length_intelligencePutField, Nat.add_assoc]

/-- A field that is read is what putting its octets writes. -/
theorem intelligenceField_eq_some {input bytes : Bytes} {offset next : ℕ}
    (h : intelligenceField input offset = some (bytes, next)) :
    next = offset + (intelligencePutField bytes).length ∧ next ≤ input.length ∧
      intelligencePutField bytes =
        BigEndian.field input offset (intelligencePutField bytes).length := by
  simp only [intelligenceField] at h
  split at h
  · cases h
  next hroom =>
  split at h
  · cases h
  next hfits =>
  obtain ⟨hbytes, hnext⟩ := Prod.mk.inj (Option.some.inj h)
  have hend : offset + 2 + wireRead input offset 2 ≤ input.length := by omega
  have hlength : bytes.length = wireRead input offset 2 := by
    rw [← hbytes, BigEndian.length_field hend]
  have hput : intelligencePutField bytes =
      BigEndian.field input offset (2 + wireRead input offset 2) := by
    rw [intelligencePutField, hlength, wireWrite_wireRead (by omega), ← hbytes,
      BigEndian.field_append_field]
  rw [length_intelligencePutField, hlength]
  exact ⟨by omega, by omega, hput⟩

/-- What is decoded is valid, and its octets are the input. -/
theorem intelligenceDecode_eq_ok {input : Bytes} {v : SentinelIntelligence}
    (h : intelligenceDecode input = .ok v) :
    intelligenceValidate v = none ∧ intelligenceBytes v = input := by
  simp only [intelligenceDecode] at h
  split at h
  · cases h
  next hlength =>
  split at h
  · cases h
  next classification offset hclassification =>
  split at h
  · cases h
  next source offset' hsource =>
  split at h
  · cases h
  next subject offset'' hsubject =>
  split at h
  · cases h
  next hdigest =>
  split at h
  · cases h
  next hvalid =>
  obtain rfl := Except.ok.inj h
  refine ⟨hvalid, ?_⟩
  obtain ⟨rfl, -, hput⟩ := intelligenceField_eq_some hclassification
  obtain ⟨rfl, -, hput'⟩ := intelligenceField_eq_some hsource
  obtain ⟨rfl, hend, hput''⟩ := intelligenceField_eq_some hsubject
  have hseverity : [byteAt input 10] = BigEndian.field input 10 1 := by
    rw [field_succ 0 (by omega), field_zero]
  have hjoin (m n : ℕ) : BigEndian.field input 0 m ++ BigEndian.field input m n =
      BigEndian.field input 0 (m + n) := by
    simpa using BigEndian.field_append_field input 0 m n
  generalize hfirst : (intelligencePutField classification).length = m at *
  generalize hsecond : (intelligencePutField source).length = n at *
  generalize hthird : (intelligencePutField subject).length = k at *
  simp only [intelligenceBytes, toNat_ofNat_wireRead_two, toNat_ofNat_wireRead_eight]
  rw [wireWrite_wireRead (by omega), wireWrite_wireRead (by omega), hseverity,
    octetBytes_octetsAt (by omega), hput, hput', hput'', hjoin, hjoin, hjoin, hjoin, hjoin, hjoin]
  exact BigEndian.field_zero_length (by omega)

/-- The octets before the three fields. -/
def intelligenceHead (v : SentinelIntelligence) : Bytes :=
  wireWrite 2 v.version.toNat ++ (wireWrite 8 v.observedAt.toNat ++ [v.severity])

theorem length_intelligenceHead (v : SentinelIntelligence) : (intelligenceHead v).length = 11 := by
  simp [intelligenceHead]

/-- What the decoder reads before the three fields. -/
theorem intelligenceHead_read (v : SentinelIntelligence) (rest : Bytes) :
    wireRead (intelligenceHead v ++ rest) 0 2 = v.version.toNat ∧
      wireRead (intelligenceHead v ++ rest) 2 8 = v.observedAt.toNat ∧
      byteAt (intelligenceHead v ++ rest) 10 = v.severity := by
  refine ⟨?_, ?_, ?_⟩
  · rw [intelligenceHead, List.append_assoc, wireRead_append_left (by simp),
      wireRead_wireWrite (by simpa using v.version.toNat_lt)]
  · rw [intelligenceHead, List.append_assoc, wireRead_append_right (by simp), length_wireWrite,
      Nat.sub_self, List.append_assoc, wireRead_append_left (by simp),
      wireRead_wireWrite (by simpa using v.observedAt.toNat_lt)]
  · have hfield : BigEndian.field (intelligenceHead v ++ rest) 10 1 = [v.severity] := by
      rw [BigEndian.field_append_left (by rw [length_intelligenceHead]), intelligenceHead,
        BigEndian.field_append_right (k := 8) (by simp),
        BigEndian.field_append_right (k := 0) (by simp)]
      rfl
    have hlong : 10 < (intelligenceHead v ++ rest).length := by
      rw [List.length_append, length_intelligenceHead]
      omega
    rw [field_succ 0 hlong, field_zero] at hfield
    exact (List.cons.inj hfield).1

/-- A value of the grammar is decoded from its octets. -/
theorem intelligenceDecode_bytes {v : SentinelIntelligence} (h : v.WellFormed) :
    intelligenceDecode (intelligenceBytes v) = .ok v := by
  have hclass := h.classification
  have hsource := And.intro h.source.nonempty h.source.bounded
  have hsubject := h.subject
  have hlength := length_intelligenceBytes v
  have hhead := length_intelligenceHead v
  have hshort : ¬((intelligenceBytes v).length < 52 ∨ (intelligenceBytes v).length > 1390) := by
    omega
  -- The three fields, one after the other.
  have hfirst := @intelligenceField_put v.classification (by omega) (intelligenceHead v)
    (intelligencePutField v.source ++ (intelligencePutField v.subject ++
      octetBytes v.evidenceDigest))
  have hsecond := @intelligenceField_put v.source (by omega)
    (intelligenceHead v ++ intelligencePutField v.classification)
    (intelligencePutField v.subject ++ octetBytes v.evidenceDigest)
  have hthird := @intelligenceField_put v.subject (by omega)
    (intelligenceHead v ++ intelligencePutField v.classification ++ intelligencePutField v.source)
    (octetBytes v.evidenceDigest)
  have hbytes : intelligenceBytes v = intelligenceHead v ++
      (intelligencePutField v.classification ++ (intelligencePutField v.source ++
        (intelligencePutField v.subject ++ octetBytes v.evidenceDigest))) := by
    simp only [intelligenceBytes, intelligenceHead, List.append_assoc]
  obtain ⟨hversion, htime, hseverity⟩ := intelligenceHead_read v
    (intelligencePutField v.classification ++ (intelligencePutField v.source ++
      (intelligencePutField v.subject ++ octetBytes v.evidenceDigest)))
  simp only [List.append_assoc, List.length_append] at hfirst hsecond hthird
  rw [← hbytes, hhead] at hfirst hsecond hthird
  rw [← hbytes] at hversion htime hseverity
  have hput := length_intelligencePutField v.classification
  have hput' := length_intelligencePutField v.source
  have hput'' := length_intelligencePutField v.subject
  have hend : ¬((intelligenceBytes v).length -
      (11 + (intelligencePutField v.classification).length +
        (intelligencePutField v.source).length +
        (intelligencePutField v.subject).length) ≠ 32) := by
    omega
  have hdigest : octetsAt (intelligenceBytes v)
      (11 + (intelligencePutField v.classification).length +
        (intelligencePutField v.source).length +
        (intelligencePutField v.subject).length) 32 = v.evidenceDigest := by
    have hoff : 11 + (intelligencePutField v.classification).length +
        (intelligencePutField v.source).length + (intelligencePutField v.subject).length =
          (wireWrite 2 v.version.toNat ++ wireWrite 8 v.observedAt.toNat ++ [v.severity] ++
            intelligencePutField v.classification ++ intelligencePutField v.source ++
              intelligencePutField v.subject).length := by
      simp only [List.length_append, length_wireWrite, List.length_singleton]
    rw [intelligenceBytes, hoff, octetsAt_append_right le_rfl, Nat.sub_self, octetsAt_octetBytes]
  have hvalid := (intelligenceValidate_eq_none_iff v).mpr h
  rw [intelligenceDecode, if_neg hshort, hfirst]
  dsimp only
  rw [hsecond]
  dsimp only
  rw [← Nat.add_assoc] at hthird
  rw [hthird]
  dsimp only
  rw [if_neg hend, hversion, htime, hseverity, hdigest, UInt16.ofNat_toNat, UInt64.ofNat_toNat]
  simp only [hvalid]

theorem intelligenceEncode_eq_ok_iff {v : SentinelIntelligence} {capacity : ℕ} {bytes : Bytes} :
    intelligenceEncode v capacity = .ok bytes ↔
      v.WellFormed ∧ bytes.length ≤ capacity ∧ intelligenceBytes v = bytes := by
  rw [← intelligenceValidate_eq_none_iff]
  have hlength := length_intelligenceBytes v
  constructor
  · intro h
    simp only [intelligenceEncode] at h
    split at h
    · cases h
    next hvalid =>
    split at h
    · cases h
    next hroom =>
    obtain rfl := Except.ok.inj h
    exact ⟨hvalid, by omega, rfl⟩
  · rintro ⟨hvalid, hroom, rfl⟩
    simp only [intelligenceEncode, hvalid]
    rw [if_neg (by omega)]

/-- Decoding and encoding invert each other, and the decoder accepts the encodings of the
grammar, which the validator accepts. -/
theorem intelligence_codec :
    (∀ v, intelligenceValidate v = none → ∀ capacity, (intelligenceBytes v).length ≤ capacity →
      ∃ bytes, intelligenceEncode v capacity = .ok bytes ∧ intelligenceDecode bytes = .ok v) ∧
    (∀ bytes v, intelligenceDecode bytes = .ok v → intelligenceValidate v = none ∧ v.WellFormed ∧
      ∀ capacity, bytes.length ≤ capacity → intelligenceEncode v capacity = .ok bytes) ∧
    (∀ v, intelligenceValidate v = none ↔ v.WellFormed) ∧
    ∀ bytes, (∃ v, intelligenceDecode bytes = .ok v) ↔
      ∃ v : SentinelIntelligence, v.WellFormed ∧ intelligenceBytes v = bytes := by
  refine ⟨?_, ?_, intelligenceValidate_eq_none_iff, ?_⟩
  · intro v hvalid capacity hcapacity
    have hformed := (intelligenceValidate_eq_none_iff v).mp hvalid
    exact ⟨intelligenceBytes v, intelligenceEncode_eq_ok_iff.mpr ⟨hformed, hcapacity, rfl⟩,
      intelligenceDecode_bytes hformed⟩
  · intro bytes v hdecode
    obtain ⟨hvalid, hbytes⟩ := intelligenceDecode_eq_ok hdecode
    have hformed := (intelligenceValidate_eq_none_iff v).mp hvalid
    exact ⟨hvalid, hformed, fun capacity hcapacity =>
      intelligenceEncode_eq_ok_iff.mpr ⟨hformed, hcapacity, hbytes⟩⟩
  · intro bytes
    constructor
    · rintro ⟨v, hdecode⟩
      obtain ⟨hvalid, hbytes⟩ := intelligenceDecode_eq_ok hdecode
      exact ⟨v, (intelligenceValidate_eq_none_iff v).mp hvalid, hbytes⟩
    · rintro ⟨v, hformed, rfl⟩
      exact ⟨v, intelligenceDecode_bytes hformed⟩

namespace Sample

/-- An observation of a host. -/
def observation : SentinelIntelligence where
  version := 1
  observedAt := 1000
  severity := 5
  classification := ascii "port-scan"
  source := ascii "a-1.example.org"
  subject := ascii "tcp 22"
  evidenceDigest := 7

end Sample

open Sample in
theorem observation_decoded : ∃ bytes, intelligenceEncode observation 1390 = .ok bytes ∧
    intelligenceDecode bytes = .ok observation ∧
    intelligenceEncode observation bytes.length = .ok bytes := by
  obtain ⟨bytes, hencode, hdecode⟩ := intelligence_codec.1 observation (by decide +kernel) 1390
    (by decide +kernel)
  obtain ⟨-, -, hagain⟩ := intelligence_codec.2.1 bytes observation hdecode
  exact ⟨bytes, hencode, hdecode, hagain bytes.length le_rfl⟩

end StnChain
