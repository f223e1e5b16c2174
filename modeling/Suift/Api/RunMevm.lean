import Suift.Types.SignTx

/-!
# Executing a confidential request

`runMEVM` of `internal/ethapi/api.go`: execute a `ConfidentialComputeRequest`, wrap its record
together with the result into a `SuaveTransaction`, and have the wallet of the requested execution
node sign that.

The account manager, the execution itself and the ABI decoder are parameters.  The function that
finalizes the confidential store, which the source returns as well, is part of the store's model.
-/

namespace Suift

open Text

/-- `accounts.Wallet`, as far as it signs transactions. -/
structure Wallet where
  signTx : Address → Transaction → ℕ → Except GoError Transaction

/-- `core.ExecutionResult`. -/
inductive ExecutionResult
  | success (returnData : Bytes)
  | reverted (returnData : Bytes)
  | failed (err : GoError)

/-- What `runMEVM` is given. -/
structure MevmBackend where
  /-- `AccountManager().Find`. -/
  find : Address → Except GoError Wallet
  /-- `core.ApplyMessage`, in an EVM with its own transactional store. -/
  applyMessage : Transaction → Except GoError ExecutionResult
  /-- The context was cancelled during the execution. -/
  cancelled : Transaction → Bool
  /-- `state.Error` after the execution. -/
  vmError : Transaction → Option GoError
  /-- Decode the ABI encoding of one `bytes` value. -/
  unpackBytes : Bytes → Except GoError Bytes

namespace MevmBackend

variable (B : MevmBackend)

/-- The result that is put on chain: the call in the return data if it is one, that is, if it has a
selector and whole words, else all of the return data. -/
def computeResult (returnData : Bytes) : Bytes :=
  match B.unpackBytes returnData with
  | .ok unpacked => if unpacked.length % 32 = 4 then unpacked else returnData
  | .error _ => returnData

/-- The transaction with the result, not signed yet. -/
def suaveResultTx (request : ConfidentialComputeRequest) (result : Bytes) : Transaction :=
  .suave
    { executionNode := request.confidentialComputeRecord.executionNode
      confidentialComputeRequest := request.confidentialComputeRecord
      confidentialComputeResult := result
      chainID := 0, v := 0, r := 0, s := 0 }

def runMEVM (tx : Transaction) : Except GoError Transaction := do
  let .request confidentialRequest := tx
    | throw (GoError.new "invalid transaction passed")
  let account := confidentialRequest.confidentialComputeRecord.executionNode
  let wallet ← B.find account
  let applied := B.applyMessage tx
  if B.cancelled tx then
    throw (GoError.new "execution aborted")
  let result ← applied.mapError fun err => (err.wrap (ascii "err: ")).followedBy
    (ascii " (supplied gas " ++ decimal tx.gas.toNat ++ ascii ")")
  if let some err := B.vmError tx then
    throw err
  match result with
  -- only a revert comes with return data
  | .failed err => throw (err.followedBy (ascii ": 0x"))
  | .reverted returnData =>
    throw (.error (ascii "execution reverted: 0x" ++
      returnData.flatMap fun b => hexDigits 2 b.toNat) none)
  | .success returnData =>
    wallet.signTx account (suaveResultTx confidentialRequest (B.computeResult returnData)) tx.chainID

end MevmBackend

end Suift
