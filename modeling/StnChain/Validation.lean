import StnChain.Chain.Candidate
import StnChain.Record

/-!
# Validation of intelligence records

`stn_validate_intelligence_record` runs the stages of a record one after another,
the last three of them through hooks of its caller, and stops at the first that
does not pass (`stn_validation.c`).
-/

namespace StnChain

variable [Primitives]

/-- `stn_validation_context`; a hook the caller leaves out is `none`. -/
structure ValidationContext where
  expectedNetwork : Octets 32
  timeConfigured : Bool
  validationTime : UInt64
  futureToleranceSeconds : UInt64
  maxAgeSeconds : UInt64
  verifySignature : Option (Bytes → Bytes → Octets 32 → Octets 64 → StageStatus)
  lookupAuthority : Option (Record → SentinelIntelligence → StageStatus)
  checkReplay : Option (Record → StageStatus)

/-- `stn_validation_report`; an error field without a value holds its success value. -/
structure ValidationReport where
  recordStructure : StageStatus := .notRun
  payload : StageStatus := .notRun
  network : StageStatus := .notRun
  time : StageStatus := .notRun
  signature : StageStatus := .notRun
  authority : StageStatus := .notRun
  replay : StageStatus := .notRun
  acceptance : Acceptance := .rejected
  envelopeError : Option RecordStatus := none
  payloadError : Option IntelligenceStatus := none

/-- `checked_hook`: what is not an answer is an error. -/
def checkedHook : StageStatus → StageStatus
  | .notRun => .error
  | status => status

/-- A hook that may be left out. -/
def hookStatus : Option StageStatus → StageStatus
  | none => .unresolved
  | some status => checkedHook status

/-- The acceptance `stopped` derives from the stage it stopped at. -/
def stoppedAcceptance : StageStatus → Acceptance
  | .reject => .rejected
  | .unresolved => .unresolved
  | _ => .error

/-- The time stage. -/
def timeStage (context : ValidationContext) (record : Record)
    (intelligence : SentinelIntelligence) : StageStatus :=
  if intelligence.observedAt > record.issuedAt then .reject
  else if !context.timeConfigured then .unresolved
  else if record.issuedAt > context.validationTime ∧
      record.issuedAt - context.validationTime > context.futureToleranceSeconds then .reject
  else if context.maxAgeSeconds ≠ 0 ∧ context.validationTime > record.issuedAt ∧
      context.validationTime - record.issuedAt > context.maxAgeSeconds then .reject
  else .pass

/-- The stages behind the payload. -/
def recordStages (context : ValidationContext) (bytes : Bytes) (record : Record)
    (intelligence : SentinelIntelligence) (r : ValidationReport) : ValidationReport :=
  let network : StageStatus :=
    if record.networkId = context.expectedNetwork then .pass else .reject
  let r := { r with network }
  if network ≠ .pass then { r with acceptance := stoppedAcceptance network }
  else
    let time := timeStage context record intelligence
    let r := { r with time }
    if time ≠ .pass then { r with acceptance := stoppedAcceptance time }
    else
      let signature := hookStatus (context.verifySignature.map fun verify =>
        verify (cString "STN-CHAIN:RECORD:SIGN:1") (recordUnsigned bytes record)
          record.signerPublicKey record.signature)
      let r := { r with signature }
      if signature ≠ .pass then { r with acceptance := stoppedAcceptance signature }
      else
        let authority := hookStatus (context.lookupAuthority.map fun lookup =>
          lookup record intelligence)
        let r := { r with authority }
        if authority ≠ .pass then { r with acceptance := stoppedAcceptance authority }
        else
          let replay := hookStatus (context.checkReplay.map fun check => check record)
          let r := { r with replay }
          if replay ≠ .pass then { r with acceptance := stoppedAcceptance replay }
          else { r with acceptance := .underContext }

/-- `stn_validate_intelligence_record`. -/
def validateIntelligenceRecord (bytes : Bytes) (context : ValidationContext) : ValidationReport :=
  match recordDecode bytes with
  | .error status =>
      { recordStructure := .reject, acceptance := .rejected, envelopeError := some status }
  | .ok record =>
      match intelligenceDecode record.payload with
      | .error status =>
          { recordStructure := .pass, payload := .reject, acceptance := .rejected,
            payloadError := some status }
      | .ok intelligence =>
          recordStages context bytes record intelligence
            { recordStructure := .pass, payload := .pass }

end StnChain
