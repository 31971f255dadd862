import StnChain.Chain.StateRun
import StnChain.Support.EarlyExit

/-!
# Record queries

The search of accepted publications (`stn_chain.c`): a history is validated block
by block with state alone, and a second pass rebuilds the lifecycle on a path of
its own.  That pass keeps two replay sets, one with what the accepted blocks
consumed and one that decides which publications a query may see.
-/

namespace StnChain

variable [Primitives]

/-! ## Cursors and matches -/

/-- `STN_CHAIN_CURSOR_VERSION`. -/
def chainCursorVersion : UInt8 := 1

/-- `stn_chain_cursor`. -/
structure ChainCursor where
  version : UInt8
  height : UInt64
  blockId : Octets 32
  transactionPosition : UInt32
  deriving DecidableEq, Repr

/-- `stn_chain_record_match`, when something was found. -/
structure RecordMatch where
  recordId : Octets 32
  height : UInt64
  blockId : Octets 32
  transaction : Bytes
  deriving DecidableEq, Repr

/-- `stn_cursor_result`. -/
inductive CursorResult
  | valid | detached | malformed | unavailable | provider
  deriving DecidableEq, Repr

/-- `stn_next_result`, with what it assigns. -/
inductive NextResult
  | record (found : RecordMatch) (position : ChainCursor)
  | atEnd | detached | malformed | unavailable | provider | capacity
  deriving DecidableEq, Repr

/-- `stn_first_result`, with what it assigns. -/
inductive FirstResult
  | record (found : RecordMatch) (position : ChainCursor)
  | atEnd | unavailable | provider | capacity
  deriving DecidableEq, Repr

/-! ## The search -/

/-- The two projections of `record_search`. -/
structure SearchState where
  historical : LifecycleState
  eligible : ReplayState

/-- How the walk of `record_search` is left early. -/
inductive SearchExit
  | failed (status : DataStatus)
  | found (found : RecordMatch) (position : ChainCursor)

/-- What a search looks for: a record identifier, the record after a cursor, or,
with neither, the first one. -/
structure SearchKey where
  key : Option (Octets 32) := none
  after : Option ChainCursor := none

/-- The selection among eligible publications. -/
def SearchKey.selects (k : SearchKey) (id : Octets 32) (height : UInt64) (j : ℕ) : Bool :=
  (k.key.isNone && k.after.isNone) || k.key = some id ||
    match k.after with
    | none => false
    | some after => after.height < height ||
        (height = after.height && after.transactionPosition.toNat < j)

/-- One transaction of the counting pass. -/
def countGrant (grants : ℕ) (t : Bytes) : Except DataStatus ℕ :=
  match transactionDecode t with
  | .error _ => .error .providerError
  | .ok tx => .ok (if tx.type = .authorityGrant then grants + 1 else grants)

/-- One block of the counting pass, over the transactions and the grants so far. -/
def countBlock (count : ℕ × ℕ) (bytes : Bytes) : Except DataStatus (ℕ × ℕ) :=
  match blockDecode bytes with
  | .error _ => .error .providerError
  | .ok b =>
      match b.transactions.foldlM countGrant count.2 with
      | .error status => .error status
      | .ok grants => .ok (count.1 + b.header.transactionCount.toNat, grants)

/-- The numbers of transactions and of grants that size the search's storage. -/
def countTransactions (blocks : List Bytes) : Except DataStatus (ℕ × ℕ) :=
  blocks.foldlM countBlock (0, 0)

/-- A publication as a query sees it: it is returned, or consumed among the eligible ones
when it passes the check against them. -/
def observePublication (c : ChainContext) (k : SearchKey) (bytes : Bytes) (height : UInt64)
    (j : ℕ) (t : Bytes) (tx : Transaction) (w : SearchState) : Except SearchExit SearchState :=
  let observed := { w.historical with replay := w.eligible }
  match lifecycleCheckPublication observed tx.record c.hashProvider with
  | .provider | .capacity => .error (.failed .providerError)
  | .ok =>
      match recordId tx.record c.hashProvider with
      | .error _ => .error (.failed .providerError)
      | .ok id =>
          if k.selects id height j then
            match chainBlockId bytes c.hashProvider with
            | .error _ => .error (.failed .providerError)
            | .ok blockId => .error (.found ⟨id, height, blockId, t⟩
                ⟨chainCursorVersion, height, blockId, UInt32.ofNat j⟩)
          else
            match lifecycleApplyTransaction observed tx c.genesisAuthorityRoots c.hashProvider with
            | (.ok, observed) => .ok { w with eligible := observed.replay }
            | _ => .error (.failed .providerError)
  | _ => .ok w

/-- The accepted lifecycle, and what it consumes among the eligible publications. -/
def advanceHistorical (c : ChainContext) (tx : Transaction) (w : SearchState) :
    Except SearchExit SearchState :=
  match lifecycleApplyTransaction w.historical tx c.genesisAuthorityRoots c.hashProvider with
  | (.ok, historical) =>
      match historical.replay.consumed.getLast? with
      | none => .error (.failed .providerError)
      | some id =>
          match replayStateConsume w.eligible id with
          | (.malformed, _) => .error (.failed .providerError)
          | (_, eligible) => .ok ⟨historical, eligible⟩
  | _ => .error (.failed .providerError)

/-- One round of the walk, over the transaction at position `entry.2`. -/
def searchTransaction (c : ChainContext) (activation : UInt64) (k : SearchKey) (bytes : Bytes)
    (height : UInt64) (w : SearchState) (entry : Bytes × ℕ) : Except SearchExit SearchState :=
  match transactionDecode entry.1 with
  | .error _ => .error (.failed .providerError)
  | .ok tx =>
      if tx.type = .publication then do
        let w ← observePublication c k bytes height entry.2 entry.1 tx w
        if height < activation then pure w else advanceHistorical c tx w
      else advanceHistorical c tx w

/-- The walk over one block. -/
def searchBlock (c : ChainContext) (activation : UInt64) (k : SearchKey) (w : SearchState)
    (bytes : Bytes) : Except SearchExit SearchState :=
  match blockDecode bytes with
  | .error _ => .error (.failed .providerError)
  | .ok b => b.transactions.zipIdx.foldlM
      (searchTransaction c activation k bytes b.header.height) w

/-- The projections before the walk. -/
def searchInitial (c : ChainContext) (total grants : ℕ) : SearchState where
  historical := lifecycleSetInitialIdentities
    (lifecycleInitialize grants total (c.genesisInitialIdentities.headD 0))
    c.genesisInitialIdentities
  eligible := replayStateInitialize total

/-- `record_search`. -/
def recordSearch (c : ChainContext) (blocks : List Bytes) (k : SearchKey) :
    Except DataStatus (Option (RecordMatch × ChainCursor)) :=
  if c.powPolicy.isNone ∨ blocks = [] then .error .unresolved
  else
    match chainInitialize c with
    | .error _ => .error .providerError
    | .ok initial =>
        match PastRun.run (stateStep c) [] initial blocks with
        | .error r =>
            if r.acceptance = .unresolved then .error .unresolved else .error .providerError
        | .ok current =>
            match countTransactions blocks with
            | .error status => .error status
            | .ok (total, grants) =>
                match blocks.foldlM (searchBlock c current.publicationActivationHeight k)
                    (searchInitial c total grants) with
                | .ok _ => .ok none
                | .error (.found found position) => .ok (some (found, position))
                | .error (.failed status) => .error status

/-! ## Queries -/

/-- `stn_chain_lookup_record`. -/
def chainLookupRecord (c : ChainContext) (blocks : List Bytes) (key : Octets 32) :
    Except DataStatus (Option RecordMatch) :=
  match recordSearch c blocks { key := some key } with
  | .error status => .error status
  | .ok none => .ok none
  | .ok (some (found, _)) => .ok (some found)

/-- The loop of `stn_chain_cursor_validate`. -/
def cursorLoop (c : ChainContext) (cursor : ChainCursor) :
    ChainState → CursorResult → List Bytes → CursorResult
  | _, result, [] => result
  | s, result, bytes :: rest =>
      match stateStep c [] s bytes with
      | .error r => if r.acceptance = .unresolved then .unavailable else .provider
      | .ok s =>
          match blockDecode bytes with
          | .error _ => .provider
          | .ok b =>
              if b.header.height = cursor.height then
                match chainBlockId bytes c.hashProvider with
                | .error _ => .provider
                | .ok id =>
                    cursorLoop c cursor s
                      (if id = cursor.blockId ∧
                          cursor.transactionPosition < b.header.transactionCount then .valid
                        else result) rest
              else cursorLoop c cursor s result rest

/-- `stn_chain_cursor_validate`. -/
def chainCursorValidate (c : ChainContext) (blocks : List Bytes) (cursor : ChainCursor) :
    CursorResult :=
  if cursor.version ≠ chainCursorVersion then .malformed
  else if c.powPolicy.isNone ∨ blocks = [] then .unavailable
  else
    match chainInitialize c with
    | .error _ => .provider
    | .ok s => cursorLoop c cursor s .detached blocks

/-- `stn_chain_next_record`. -/
def chainNextRecord (c : ChainContext) (blocks : List Bytes) (after : ChainCursor) :
    NextResult :=
  match chainCursorValidate c blocks after with
  | .malformed => .malformed
  | .detached => .detached
  | .unavailable => .unavailable
  | .provider => .provider
  | .valid =>
      match recordSearch c blocks { after := some after } with
      | .error .unresolved => .unavailable
      | .error .capacity => .capacity
      | .error _ => .provider
      | .ok none => .atEnd
      | .ok (some (found, position)) => .record found position

/-- `stn_chain_first_record`. -/
def chainFirstRecord (c : ChainContext) (blocks : List Bytes) : FirstResult :=
  match recordSearch c blocks {} with
  | .error .unresolved => .unavailable
  | .error .capacity => .capacity
  | .error _ => .provider
  | .ok none => .atEnd
  | .ok (some (found, position)) => .record found position

end StnChain
