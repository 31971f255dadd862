import StnChain.Chain.History
import StnChain.Fork
import StnChain.Query.Search

/-!
# Recovery of a consumer

What a consumer does whose cursor the current history no longer has (`stn_fork.c`):
the common ancestor of the current and a retained history, and the last record at
or below it.
-/

namespace StnChain

variable [Primitives]

/-- `stn_cursor_ancestor`. -/
structure CursorAncestor where
  height : UInt64
  blockId : Octets 32

/-- `stn_cursor_reorg_result`, with what it assigns. -/
inductive CursorReorgResult
  | current
  | commonAncestor (ancestor : CursorAncestor)
  | noCommonAncestor | malformed | unavailable | provider

/-- `stn_consumer_recovery_result`, with the plan it assigns. -/
inductive ConsumerRecoveryResult
  | current
  | fromStart (rollback : CursorAncestor)
  | afterCursor (rollback : CursorAncestor) (resume : ChainCursor)
  | unavailable | malformed | provider

/-- `stn_chain_resolve_cursor_reorg`. -/
def chainResolveCursorReorg (c : ChainContext) (current retained : List Bytes)
    (cursor : ChainCursor) : CursorReorgResult :=
  match chainCursorValidate c current cursor with
  | .malformed => .malformed
  | .unavailable => .unavailable
  | .provider => .provider
  | .valid => .current
  | .detached =>
      if retained = [] then .noCommonAncestor
      else
        match chainCursorValidate c retained cursor with
        | .provider => .provider
        | .detached | .malformed | .unavailable => .noCommonAncestor
        | .valid =>
            match forkEvaluateHistory c current retained with
            | (r, plan) =>
                if r.result = .error then .provider
                else if r.result ≠ .current ∧ r.result ≠ .candidate ∧ r.result ≠ .tie then
                  .noCommonAncestor
                else
                  match plan with
                  | none => .provider
                  | some plan =>
                      .commonAncestor ⟨UInt64.ofNat plan.ancestorIndex, plan.ancestorId⟩

/-- The walk over the records at or below a height, from a first position on; `resume` is the
last position met. -/
def recoveryLoop (c : ChainContext) (current : List Bytes) (height : UInt64) :
    ℕ → ChainCursor → Option ChainCursor → Option (Option ChainCursor)
  | 0, _, _ => none
  | fuel + 1, position, resume =>
      if position.height ≤ height then
        match chainNextRecord c current position with
        | .atEnd => some (some position)
        | .record _ next => recoveryLoop c current height fuel next (some position)
        | _ => none
      else some resume

/-- `stn_chain_build_consumer_recovery_plan`.  A history has no more records than
transactions, which bounds the walk. -/
def chainBuildConsumerRecoveryPlan (c : ChainContext) (current retained : List Bytes)
    (cursor : ChainCursor) : ConsumerRecoveryResult :=
  match chainResolveCursorReorg c current retained cursor with
  | .current => .current
  | .malformed => .malformed
  | .provider => .provider
  | .noCommonAncestor | .unavailable => .unavailable
  | .commonAncestor rollback =>
      match chainFirstRecord c current with
      | .atEnd => .fromStart rollback
      | .record _ position =>
          match recoveryLoop c current rollback.height
              ((current.flatMap blockTransactions).length + 1) position none with
          | none => .provider
          | some none => .fromStart rollback
          | some (some resume) => .afterCursor rollback resume
      | _ => .provider

end StnChain
