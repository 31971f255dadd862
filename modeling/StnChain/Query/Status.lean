import StnChain.Chain.History

/-!
# The status of a transaction

`stn_transaction_status_find` validates a history again and searches its blocks for a
transaction identifier (`stn_transaction_status.c`).
-/

namespace StnChain

variable [Primitives]

/-- `stn_transaction_status`. -/
structure TransactionStatus where
  height : UInt64
  blockId : Octets 32
  transactionPosition : ℕ
  deriving DecidableEq

/-- `stn_transaction_status_code`, with what it assigns. -/
inductive TransactionStatusResult
  | notFound
  | accepted (found : TransactionStatus)
  | argument | unavailable | provider
  deriving DecidableEq

/-- The loop over the transactions of a body: the position of the identifier. -/
def statusWalk (provider : HashProvider) (id : Octets 32) :
    ℕ → ℕ → Bytes → Except Unit (Option ℕ)
  | 0, _, rest => if rest.isEmpty then .ok none else .error ()
  | count + 1, position, rest =>
      if rest.length < 4 then .error ()
      else
        let length := wireRead rest 0 4
        let tail := rest.drop 4
        if length > tail.length then .error ()
        else
          match transactionDecode (tail.take length), transactionId (tail.take length) provider with
          | .ok _, .ok found =>
              if found = id then .ok (some position)
              else statusWalk provider id count (position + 1) (tail.drop length)
          | _, _ => .error ()

/-- The loop over the blocks. -/
def statusSearch (provider : HashProvider) (id : Octets 32) :
    List Bytes → TransactionStatusResult
  | [] => .notFound
  | bytes :: rest =>
      match blockDecode bytes with
      | .error _ => .provider
      | .ok b =>
          match statusWalk provider id b.header.transactionCount.toNat 0 b.body with
          | .error () => .provider
          | .ok none => statusSearch provider id rest
          | .ok (some position) =>
              match chainBlockId bytes provider with
              | .error _ => .provider
              | .ok blockId => .accepted ⟨b.header.height, blockId, position⟩

/-- `stn_transaction_status_find`. -/
def transactionStatusFind (c : ChainContext) (blocks : List Bytes) (id : Octets 32) :
    TransactionStatusResult :=
  if blocks = [] then .argument
  else
    match (chainReconstructHistory c blocks).1.acceptance with
    | .unresolved => .unavailable
    | .underContext => statusSearch c.hashProvider id blocks
    | _ => .provider

end StnChain
