import Suift.Types.Transaction

/-!
# Bundles

`types.SBundle`, the bundle a user sends, and `types.RPCMevShareBundle`, the form in which a matched
pair is sent on.
-/

namespace Suift

structure SBundle where
  blockNumber : Option ℕ
  txs : List Transaction
  revertingHashes : List Hash
  refundPercent : Option ℤ
  deriving DecidableEq, Repr

structure RefundEntry where
  bodyIdx : ℕ
  percent : ℤ
  deriving DecidableEq, Repr

/-- `body` lists the transactions as hexadecimal text; `canRevert` is never set. -/
structure RPCMevShareBundle where
  version : GoString
  inclusionBlock : GoString
  body : List GoString
  refund : List RefundEntry
  deriving DecidableEq, Repr

end Suift
