import Suift.Lib.JsonDecode
import Suift.Types.Binary
import Suift.Types.Json
import Suift.VM.SuaveContext

/-!
# The codecs behind the precompiles

The values that the bundle precompiles read from their input and from the confidential store are decoded by
`accounts/abi` (lists of bid ids) and by `SBundle.UnmarshalJSON` of `core/types/sbundle.go`.
`goExternals` are the `Externals` made of these.
-/

namespace Suift

open Text Json Hexutil Rlp

/-! ### Lists of bid ids -/

/-- `bidIdsAbi.Inputs.Unpack`: an offset, a length at that offset, and the ids behind it, each in the first
half of a word. -/
def unpackBidIds (data : Bytes) : Except GoError (List BidId) := do
  if data.length = 0 then
    throw (GoError.new "abi: attempting to unmarshall an empty string while arguments are expected")
  if data.length < 32 then
    throw (.error (ascii "abi: cannot marshal in to go type: length insufficient " ++
      decimal data.length ++ ascii " require 32") none)
  let offsetEnd := ofBigEndian (data.take 32) + 32
  if data.length < offsetEnd then
    throw (.error (ascii "abi: cannot marshal in to go slice: offset " ++ decimal offsetEnd ++
      ascii " would go over slice boundary (len=" ++ decimal data.length ++ ascii ")") none)
  if 2 ^ 63 ≤ offsetEnd then
    throw (.error (ascii "abi offset larger than int64: " ++ decimal offsetEnd) none)
  let length := ofBigEndian ((data.drop (offsetEnd - 32)).take 32)
  let totalSize := offsetEnd + length
  if 2 ^ 63 ≤ totalSize then
    throw (.error (ascii "abi: length larger than int64: " ++ decimal totalSize) none)
  if data.length < totalSize then
    throw (.error (ascii "abi: cannot marshal in to go type: length insufficient " ++
      decimal data.length ++ ascii " require " ++ decimal totalSize) none)
  let output := data.drop offsetEnd
  if output.length < 32 * length then
    throw (.error (ascii "abi: cannot marshal into go array: offset " ++ decimal output.length ++
      ascii " would go over slice boundary (len=" ++ decimal (32 * length) ++ ascii ")") none)
  return (List.range length).map fun j => BitVec.ofNat 128 (ofBigEndian ((output.drop (32 * j)).take 16))

/-! ### Bundles -/

/-- A signed number in decimal. -/
def decimalInt (n : ℤ) : GoString := if n < 0 then 45 :: decimal n.natAbs else decimal n.natAbs

/-- `types.RpcSBundle`. -/
structure RpcSBundle where
  blockNumber : ℕ := 0
  txs : Slice Bytes := none
  revertingHashes : Slice Hash := none
  refundPercent : Option ℤ := none

inductive SBundleField
  | blockNumber | txs | revertingHashes | refundPercent
  deriving DecidableEq, Repr

namespace SBundleField

def all : List SBundleField := [blockNumber, txs, revertingHashes, refundPercent]

def name : SBundleField → String
  | blockNumber => "blockNumber"
  | txs => "txs"
  | revertingHashes => "revertingHashes"
  | refundPercent => "percent"

def set : SBundleField → RpcSBundle → Value → Option RpcSBundle
  | blockNumber, b, x => (unmarshalBig x).map fun y => { b with blockNumber := y }
  | txs, b, x => (decodeSlice [] (fun _ => unmarshalBytes) b.txs x).map fun y => { b with txs := y }
  | revertingHashes, b, x =>
    (decodeSlice 0 (fun _ => unmarshalHash) b.revertingHashes x).map fun y => { b with revertingHashes := y }
  | refundPercent, b, x =>
    (TxJson.pointer (decodeInt 64) x).map fun y => { b with refundPercent := y }

end SBundleField

def sbundleFormat : RecordFormat SBundleField RpcSBundle where
  fields := SBundleField.all
  name := SBundleField.name
  set := SBundleField.set
  token_name f := token_of_plain (by cases f <;> decide +kernel)
  lookup_name f := lookup_eq_some (by cases f <;> decide +kernel) (by cases f <;> decide) (by decide +kernel)

/-- `json.Unmarshal` into a bundle, by `SBundle.UnmarshalJSON`; `jsonError` is the text of the error if the
JSON is not of the right form. -/
def unmarshalSBundle (U : EthBinary) (jsonError : Bytes → GoString) (data : Bytes) :
    Except GoError SBundle := do
  let some rpcSBundle := (parse data).bind (sbundleFormat.decode {})
    | throw (.error (jsonError data) none)
  let txs ← rpcSBundle.txs.elems.mapM (unmarshalBinary U)
  return { blockNumber := some rpcSBundle.blockNumber, txs := txs,
           revertingHashes := rpcSBundle.revertingHashes.elems, refundPercent := rpcSBundle.refundPercent }

/-- The JSON of a `types.RPCMevShareBundle`.  An empty slice is one that nothing was appended to. -/
def shareBundleJson (b : RPCMevShareBundle) : Value :=
  let slice (elems : List Value) : Value := if elems = [] then .null else .arr elems
  .obj
    [(ascii "version", .str b.version),
      (ascii "inclusion", .obj [(ascii "block", .str b.inclusionBlock)]),
      (ascii "body", slice (b.body.map fun tx =>
        .obj [(ascii "tx", .str tx), (ascii "canRevert", .bool false)])),
      (ascii "validity", .obj
        [(ascii "refund", slice (b.refund.map fun r =>
          .obj [(ascii "bodyIdx", .num (decimal r.bodyIdx)), (ascii "percent", .num (decimalInt r.percent))]))])]

/-- The externals of the source.  The names and the texts that `fmt` gives to bids are left open. -/
def goExternals (U : EthBinary) (jsonError : Bytes → GoString) (precompileAddressToName : Address → GoString)
    (formatInnerBid : InnerBid → GoString) (formatBid : Bid → GoString) : Externals where
  precompileAddressToName := precompileAddressToName
  unpackBidIds := unpackBidIds
  unmarshalSBundle := unmarshalSBundle U jsonError
  marshalBinary := marshalBinary U
  marshalShareBundle b := .ok (print (shareBundleJson b))
  formatInnerBid := formatInnerBid
  formatBid := formatBid

end Suift
