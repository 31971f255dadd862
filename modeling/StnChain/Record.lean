import StnChain.Identity

/-!
# Publication records

The signed record envelope (`stn_record.c`) and the Sentinel intelligence
payload it carries (`stn_sentinel_intelligence.c`), with the identifiers and
authority tokens derived from a record.  The envelope decoder is structural:
payload, signature and authority are checked by the lifecycle component.
-/

namespace StnChain

/-! ## The record envelope -/

/-- `stn_record_status` other than `STN_RECORD_OK`. -/
inductive RecordStatus
  | truncated | magic | unsupported | limit | length | nonce
  deriving DecidableEq, Repr

/-- `STN_RECORD_HEADER_SIZE`. -/
def recordHeaderSize : ℕ := 116

/-- `STN_RECORD_OVERHEAD`: the header and the signature. -/
def recordOverhead : ℕ := 180

/-- `STN_RECORD_MAX_PAYLOAD`. -/
def recordMaxPayload : ℕ := 65536

/-- `stn_record`. -/
structure Record where
  version : UInt16
  type : UInt16
  networkId : Octets 32
  signerPublicKey : Octets 32
  nonce : Octets 32
  issuedAt : UInt64
  payload : Bytes
  signature : Octets 64

/-- `stn_record_decode`. -/
def recordDecode (input : Bytes) : Except RecordStatus Record :=
  if input.length < recordOverhead then .error .truncated
  else if input.length > recordOverhead + recordMaxPayload then .error .limit
  else if input.take 4 ≠ [0x53, 0x54, 0x4e, 0x52] then .error .magic
  else
    let version := wireRead input 4 2
    let type := wireRead input 6 2
    let payloadLength := wireRead input 112 4
    if version ≠ 1 ∨ type ≠ 1 then .error .unsupported
    else if payloadLength > recordMaxPayload then .error .limit
    else if payloadLength ≠ input.length - recordOverhead then .error .length
    else if octetsAt input 72 32 = 0 then .error .nonce
    else .ok {
      version := UInt16.ofNat version
      type := UInt16.ofNat type
      networkId := octetsAt input 8 32
      signerPublicKey := octetsAt input 40 32
      nonce := octetsAt input 72 32
      issuedAt := UInt64.ofNat (wireRead input 104 8)
      payload := BigEndian.field input recordHeaderSize payloadLength
      signature := octetsAt input (recordHeaderSize + payloadLength) 64 }

/-- The octets a record's signature and identifier cover. -/
def recordUnsigned (bytes : Bytes) (record : Record) : Bytes :=
  bytes.take (recordHeaderSize + record.payload.length)

/-- A version octet followed by the leading 31 octets of a digest. -/
def versionedToken (digest : Octets 32) : Octets 32 :=
  BitVec.ofNat 256 (2 ^ 248 + digest.toNat / 256)

/-- `stn_record_publication_tokens`: the action and the context token. -/
def recordPublicationTokens (bytes : Bytes) (provider : HashProvider) :
    Except DataStatus (Octets 32 × Octets 32) :=
  match recordDecode bytes with
  | .error _ => .error .content
  | .ok _ => do
      let action ← provider.digest (ascii "STN-CHAIN:AUTHORITY:ACTION:PUBLISH_RECORD:1") []
      let context ← provider.digest (ascii "STN-CHAIN:AUTHORITY:CONTEXT:RECORD_CLASS:1")
        (BigEndian.field bytes 6 2)
      pure (versionedToken action, versionedToken context)

/-- `stn_record_id`. -/
def recordId (bytes : Bytes) (provider : HashProvider) : Except DataStatus (Octets 32) :=
  match provider.hash with
  | none => .error .argument
  | some _ =>
      match recordDecode bytes with
      | .error _ => .error .content
      | .ok record =>
          provider.digest (ascii "STN-CHAIN:RECORD:ID:1") (recordUnsigned bytes record)

/-! ## Sentinel intelligence -/

/-- `stn_sentinel_intelligence_status` other than the success value. -/
inductive IntelligenceStatus
  | length | version | severity | classification | source | subject | evidence | capacity
  deriving DecidableEq, Repr

/-- `stn_sentinel_intelligence`. -/
structure SentinelIntelligence where
  version : UInt16
  observedAt : UInt64
  severity : UInt8
  classification : Bytes
  source : Bytes
  subject : Bytes
  evidenceDigest : Octets 32

/-- `alnum_lower`. -/
def alnumLower (c : UInt8) : Bool :=
  (0x61 ≤ c && c ≤ 0x7a) || (0x30 ≤ c && c ≤ 0x39)

/-- The loop over the source name: `label` octets of the current label have
been read, the last of them being `previous`. -/
def sourceLabels (label : ℕ) (previous : UInt8) : Bytes → Bool
  | [] => label ≠ 0 && previous ≠ 0x2d
  | c :: rest =>
      if c = 0x2e then
        if label = 0 ∨ previous = 0x2d then false else sourceLabels 0 c rest
      else if (!alnumLower c && c ≠ 0x2d) || (label = 0 && c = 0x2d) || label = 63 then false
      else sourceLabels (label + 1) c rest

/-- `validate`; `none` is the success value. -/
def intelligenceValidate (v : SentinelIntelligence) : Option IntelligenceStatus :=
  if v.version ≠ 1 then some .version
  else if v.severity < 1 ∨ v.severity > 10 then some .severity
  else if v.classification.length < 1 ∨ v.classification.length > 64 then
    some .classification
  else if v.source.length < 1 ∨ v.source.length > 253 then some .source
  else if v.subject.length < 1 ∨ v.subject.length > 1024 then some .subject
  else if !v.classification.all (fun c => alnumLower c || c = 0x5f || c = 0x2d) then
    some .classification
  else if !sourceLabels 0 0 v.source then some .source
  else if !v.subject.all (fun c => 0x20 ≤ c && c ≤ 0x7e) then some .subject
  else if v.evidenceDigest = 0 then some .evidence
  else none

/-- `field`: a two-octet count and that many octets, with the offset after them. -/
def intelligenceField (input : Bytes) (offset : ℕ) : Option (Bytes × ℕ) :=
  if input.length - offset < 2 then none
  else
    let count := wireRead input offset 2
    if count > input.length - (offset + 2) then none
    else some (BigEndian.field input (offset + 2) count, offset + 2 + count)

/-- `stn_sentinel_intelligence_decode`. -/
def intelligenceDecode (input : Bytes) : Except IntelligenceStatus SentinelIntelligence :=
  if input.length < 52 ∨ input.length > 1390 then .error .length
  else
    match intelligenceField input 11 with
    | none => .error .length
    | some (classification, offset) =>
        match intelligenceField input offset with
        | none => .error .length
        | some (source, offset) =>
            match intelligenceField input offset with
            | none => .error .length
            | some (subject, offset) =>
                if input.length - offset ≠ 32 then .error .length
                else
                  let v : SentinelIntelligence := {
                    version := UInt16.ofNat (wireRead input 0 2)
                    observedAt := UInt64.ofNat (wireRead input 2 8)
                    severity := byteAt input 10
                    classification, source, subject
                    evidenceDigest := octetsAt input offset 32 }
                  match intelligenceValidate v with
                  | some status => .error status
                  | none => .ok v

end StnChain
