import StnChain.Contract.State

/-!
# Contract queries

The contracts an identity takes part in, in the order of `before` and bounded in
number (`stn_contract_query.c`).
-/

namespace StnChain

/-- `STN_CONTRACT_QUERY_MAX_RESULTS`. -/
def contractQueryMaxResults : ℕ := 16

/-- `stn_contract_query_result`. -/
structure ContractQueryResult where
  contractId : Octets 32
  state : ContractState
  type : ContractType
  sequence : UInt64
  createdAt : UInt64

/-- `terminal_state`. -/
def terminalState : ContractState → Bool
  | .executed | .rejected | .revoked | .closed => true
  | _ => false

/-- `before`. -/
def queryBefore (a b : ContractQueryResult) : Bool :=
  if terminalState a.state ≠ terminalState b.state then
    !terminalState a.state && terminalState b.state
  else if a.createdAt ≠ b.createdAt then a.createdAt > b.createdAt
  else a.contractId < b.contractId

/-- The loop of `contains_identity` over participant indices; `none` is a participant that
does not decode. -/
def containsIdentity (contract : Contract) (identity : Octets 32) : List ℕ → Option Bool
  | [] => some false
  | i :: rest =>
      match contractParticipantAt contract i with
      | .error _ => none
      | .ok participant =>
          if participant.identity = identity then some true
          else containsIdentity contract identity rest

/-- The result an entry gives. -/
def queryResult [Primitives] (entry : ContractStateEntry) : ContractQueryResult where
  contractId := entry.contractId
  state := entry.current.state
  type := entry.current.type
  sequence := entry.current.sequence
  createdAt := entry.current.createdAt

/-- A new result moves ahead of the results it comes before; the list is the array from its
end. -/
def sinkResult (item : ContractQueryResult) : List ContractQueryResult → List ContractQueryResult
  | [] => [item]
  | r :: rest => if queryBefore item r then r :: sinkResult item rest else item :: r :: rest

/-- A result is added, or takes the place of the last one of a full array. -/
def keepResult (limit : ℕ) (results : List ContractQueryResult) (item : ContractQueryResult) :
    List ContractQueryResult :=
  if results.length < limit then sinkResult item results
  else
    match results with
    | [] => []
    | last :: rest => if queryBefore item last then sinkResult item rest else results

/-- The loop of `stn_contract_query_identity`, over the array from its end. -/
def queryLoop [Primitives] (identity : Octets 32) (limit : ℕ) :
    List ContractQueryResult → List ContractStateEntry →
      Except ContractStatus (List ContractQueryResult)
  | results, [] => .ok results
  | results, entry :: rest =>
      match containsIdentity entry.current identity (List.range entry.current.participantCount)
      with
      | none => .error .argument
      | some false => queryLoop identity limit results rest
      | some true =>
          queryLoop identity limit (keepResult limit results (queryResult entry)) rest

/-- `stn_contract_query_identity`. -/
def contractQueryIdentity [Primitives] (store : ContractStateStore) (identity : Octets 32)
    (capacity : ℕ) : Except ContractStatus (List ContractQueryResult) :=
  let limit := min capacity contractQueryMaxResults
  if store.entries.length > store.entryCapacity then .error .argument
  else if limit = 0 then .error .capacity
  else (queryLoop identity limit [] store.entries).map List.reverse

end StnChain
