import StnChain.Pending.Admission

/-!
# Assembly of candidate bodies

A mining template takes what it can from the pool (`stn_pending_assemble`), in the order of
the identifiers and without what the history already has, and behind it the pairs of block
rewards (`stn_block_compensation_pending_assemble`).
-/

namespace StnChain

variable [Primitives]

/-! ## Eligible entries -/

/-- A share may enter when its work is older than the next block and its parent is in the
history. -/
def shareEligible (active : StorageView) (record : Bytes) : Except DataStatus Bool :=
  match shareDecode record with
  | .error _ => .error .content
  | .ok share =>
      match blockHeaderDecode (octetBytes share.templateHeader) with
      | .error _ => .error .content
      | .ok header =>
          if !active.state.hasTip ∨ active.state.height = uint64Max then .ok false
          else if header.height ≥ active.state.height + 1 then .ok false
          else if header.height = 0 then .ok false
          else
            match active.blocks[header.height.toNat - 1]? with
            | none => .ok false
            | some parent =>
                match chainBlockId parent ⟨some Primitives.sha256⟩ with
                | .error _ => .ok false
                | .ok parentId => .ok (parentId = header.previousHash)

/-- A share issuance may enter when its share is in the history and no issuance for it. -/
def issuanceEligible (active : StorageView) (record : Bytes) : Except DataStatus Bool :=
  match issuanceDecode record with
  | .error _ => .error .content
  | .ok issuance =>
      if issuance.reason ≠ issuanceReasonShare then .ok false
      else
        match historyIssuanceState active.blocks issuance active.state.compensation with
        | .error status =>
            .error (if status = .providerError then .providerError else .content)
        | .ok (acceptedShare, acceptedIssuance) => .ok (!acceptedIssuance && acceptedShare)

/-- A publication may enter under the rules of the next height. -/
def publicationEligible (c : Option ValidationContext) (active : StorageView) (record : Bytes) :
    Except DataStatus Bool :=
  if productionNext active.state then
    match lifecycleCheckPublication active.state.lifecycle record ⟨some Primitives.sha256⟩ with
    | .provider | .capacity => .error .providerError
    | .ok =>
        match recordDecode record with
        | .error _ => .ok false
        | .ok r => .ok (r.networkId = active.state.networkId)
    | _ => .ok false
  else
    match c with
    | none => .error .unresolved
    | some c =>
        if c.expectedNetwork ≠ active.state.networkId then .error .unresolved
        else
          match (validateIntelligenceRecord record c).acceptance with
          | .error => .error .providerError
          | .underContext => .ok true
          | _ => .ok false

/-- The tests of `stn_pending_assemble`, by type. -/
def entryEligible (c : Option ValidationContext) (active : StorageView) (tx : Transaction) :
    Except DataStatus Bool :=
  match tx.type with
  | .shareEvidence => shareEligible active tx.record
  | .issuance => issuanceEligible active tx.record
  | .publication => publicationEligible c active tx.record
  | _ => .ok true

/-! ## Selection -/

/-- The loop of `stn_pending_assemble` over the identifiers of the pool: the transactions
selected so far, until the block is full. -/
def assembleLoop (c : Option ValidationContext) (active : StorageView) (pool : PendingPool)
    (replay : List Bool) (capacity : ℕ) :
    List (Octets 32) → List Bytes → Except DataStatus (List Bytes)
  | [], selected => .ok selected
  | id :: ids, selected =>
      if selected.length ≥ blockMaxTransactions then .ok selected
      else
        let found := (SortedTable.below PendingEntry.key id.toNat pool.entries).length
        match pool.entries[found]? with
        | none => .error .content
        | some e =>
            if replay.getD found false then
              assembleLoop c active pool replay capacity ids selected
            else
              match transactionDecode e.transaction with
              | .error _ => .error .content
              | .ok tx =>
                  match entryEligible c active tx with
                  | .error status => .error status
                  | .ok false => assembleLoop c active pool replay capacity ids selected
                  | .ok true =>
                      let total := (bodyBytes selected).length
                      if e.transaction.length + 4 > blockMaxBody - total then .ok selected
                      else if e.transaction.length + 4 > capacity - total then .error .capacity
                      else
                        assembleLoop c active pool replay capacity ids
                          (selected ++ [e.transaction])

/-- `stn_pending_assemble`: the body and its number of transactions. -/
def pendingAssemble (pool : PendingPool) (c : Option ValidationContext) (active : StorageView)
    (capacity : ℕ) : Except DataStatus (Bytes × ℕ) :=
  if pool.entries = [] then .ok ([], 0)
  else
    match markBlocks (scanJudge true none) pool.entries active.blocks with
    | .error _ => .error .content
    | .ok replay =>
        match assembleLoop c active pool replay capacity (pool.entries.map PendingEntry.id) [] with
        | .error status => .error status
        | .ok selected =>
            if selected = [] then .ok ([], 0)
            else (blockBodyEncode selected capacity).map fun body => (body, selected.length)

/-! ## Reward pairs -/

/-- The transaction of an entry is an issuance for a block. -/
def blockIssuanceType (tx : Transaction) : Bool :=
  tx.type = .issuance &&
    (match issuanceDecode tx.record with
      | .error _ => false
      | .ok issuance => issuance.reason = issuanceReasonBlock)

/-- The entries a generic assembly may select from. -/
def genericEntries : List PendingEntry → Except DataStatus (List PendingEntry)
  | [] => .ok []
  | e :: entries =>
      match transactionDecode e.transaction with
      | .error _ => .error .content
      | .ok tx =>
          if tx.type = .blockCompensationEvidence ∨ blockIssuanceType tx then genericEntries entries
          else (genericEntries entries).map (e :: ·)

/-- `replayed_block_compensation`. -/
def replayedBlockCompensation (s : ChainState) (evidence : BlockCompensationEvidence) : Bool :=
  match blockCompensationId evidence with
  | .error _ => true
  | .ok id => s.blockCompensation.ids.contains id

/-- The first issuance of the pool that is bound to some evidence. -/
def boundIssuance (evidence : BlockCompensationEvidence) (compensation : CompensationState) :
    List PendingEntry → Except DataStatus (Option Bytes)
  | [] => .ok none
  | e :: entries =>
      match transactionDecode e.transaction with
      | .error _ => .error .content
      | .ok tx =>
          if tx.type ≠ .issuance then boundIssuance evidence compensation entries
          else
            match issuanceDecode tx.record with
            | .error _ => boundIssuance evidence compensation entries
            | .ok issuance =>
                if issuance.reason = issuanceReasonBlock ∧
                    issuanceBindBlock issuance evidence compensation = .ok () then
                  .ok (some e.transaction)
                else boundIssuance evidence compensation entries

/-- `pair_fits`. -/
def pairFits (body : Bytes) (count capacity : ℕ) (evidence issuance : Bytes) : Bool :=
  count ≤ blockMaxTransactions - 2 && evidence.length + 4 ≤ capacity - body.length &&
    issuance.length + 4 ≤ capacity - body.length - (evidence.length + 4)

/-- The loop over the evidence of the pool; a pair is appended whole or passed over. -/
def appendPairs (active : StorageView) (capacity : ℕ) (pool : List PendingEntry) :
    List PendingEntry → Bytes × ℕ → Except DataStatus (Bytes × ℕ)
  | [], built => .ok built
  | e :: entries, (body, count) =>
      match transactionDecode e.transaction with
      | .error _ => .error .content
      | .ok tx =>
          if tx.type ≠ .blockCompensationEvidence then
            appendPairs active capacity pool entries (body, count)
          else
            match blockCompensationDecode tx.record with
            | .error _ => .error .content
            | .ok evidence =>
                if !acceptedBlock evidence.blockId active.blocks ||
                    replayedBlockCompensation active.state evidence then
                  appendPairs active capacity pool entries (body, count)
                else
                  match boundIssuance evidence active.state.compensation pool with
                  | .error status => .error status
                  | .ok none => appendPairs active capacity pool entries (body, count)
                  | .ok (some issuance) =>
                      if !pairFits body count capacity e.transaction issuance then
                        appendPairs active capacity pool entries (body, count)
                      else
                        appendPairs active capacity pool entries
                          (body ++ bodyBytes [e.transaction, issuance], count + 2)

/-- `stn_block_compensation_pending_assemble`. -/
def blockCompensationPendingAssemble (pool : PendingPool) (c : Option ValidationContext)
    (active : StorageView) (capacity : ℕ) : Except DataStatus (Bytes × ℕ) :=
  match genericEntries pool.entries with
  | .error status => .error status
  | .ok entries =>
      let generic : PendingPool := ⟨entries, (entries.map fun e => e.transaction.length).sum⟩
      match pendingAssemble generic c active capacity with
      | .error status => .error status
      | .ok built => appendPairs active capacity pool.entries pool.entries built

end StnChain
