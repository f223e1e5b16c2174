import Suift.CStore.Bid
import Suift.Lib.Rlp
import Suift.Types.Json

/-!
# Bids and messages as JSON, and the transport

How `encoding/json` writes and reads the types of the store, and what the Redis transport does with it:
`publish` sends a message as the hexadecimal form of its JSON, `subscribe` reads what comes in.

A bid id is an array of sixteen numbers, a signature of a bid is written in base64.  `nil` and empty
byte slices are not told apart here, so a bid without a signature is written with `null`.
-/

namespace Suift

open Text Json Hexutil Rlp

/-! ### Writing -/

def idJson (id : BidId) : Value := .arr ((bigEndian 16 id.toNat).map fun b => .num (decimal b.toNat))

/-- A `[]byte`. -/
def bytesJson (b : Bytes) : Value := if b = [] then .null else .str (Base64.encode b)

def stringJson (s : GoString) : Value := .str (escape s)

def innerBidJson (bid : InnerBid) : Value :=
  .obj [(ascii "Id", idJson bid.id), (ascii "Salt", idJson bid.salt),
    (ascii "DecryptionCondition", .num (decimal bid.decryptionCondition.toNat)),
    (ascii "AllowedPeekers", encodeSlice ofAddress bid.allowedPeekers),
    (ascii "AllowedStores", encodeSlice ofAddress bid.allowedStores),
    (ascii "Version", stringJson bid.version)]

/-- `uuid.UUID` in groups of 8, 4, 4, 4 and 12 digits. -/
def uuidText (u : UUID) : GoString :=
  let digits := hexDigits 32 u.toNat
  digits.take 8 ++ 45 :: ((digits.drop 8).take 4 ++ 45 :: ((digits.drop 12).take 4 ++ 45 ::
    ((digits.drop 16).take 4 ++ 45 :: digits.drop 20)))

section

variable (C : Crypto) (E : EthCodec)

/-- A `*types.Transaction`. -/
def txPointerJson : Option Transaction → Value
  | none => .null
  | some tx => marshalTx C E tx

def bidJson (bid : Bid) : Value :=
  .obj [(ascii "Id", idJson bid.id), (ascii "Salt", idJson bid.salt),
    (ascii "DecryptionCondition", .num (decimal bid.decryptionCondition.toNat)),
    (ascii "AllowedPeekers", encodeSlice ofAddress bid.allowedPeekers),
    (ascii "AllowedStores", encodeSlice ofAddress bid.allowedStores),
    (ascii "Version", stringJson bid.version),
    (ascii "CreationTx", txPointerJson C E bid.creationTx),
    (ascii "Signature", bytesJson bid.signature)]

def storeWriteJson (sw : StoreWrite) : Value :=
  .obj [(ascii "bid", bidJson C E sw.bid), (ascii "caller", ofAddress sw.caller),
    (ascii "key", stringJson sw.key), (ascii "value", ofBytes sw.value)]

def messageJson (message : DAMessage) : Value :=
  .obj [(ascii "sourceTx", txPointerJson C E message.sourceTx),
    (ascii "storeWrites", encodeSlice (storeWriteJson C E) message.storeWrites),
    (ascii "storeUUID", .str (uuidText message.storeUUID)),
    (ascii "signature", ofBytes message.signature)]

/-- The encoding that the engine uses; `newSHA1` stays a parameter. -/
def jsonEncoding (newSHA1 : UUID → Bytes → UUID) : Encoding where
  marshalInnerBid bid := .ok (print (innerBidJson bid))
  marshalBid bid := .ok (print (bidJson C E bid))
  marshalMessage message := .ok (print (messageJson C E message))
  newSHA1 := newSHA1

end

/-! ### Reading -/

def decodeId (cur : BidId) (v : Value) : Option BidId :=
  (decodeByteArray 16 (bigEndian 16 cur.toNat) v).map fun bs => BitVec.ofNat 128 (ofBigEndian bs)

/-- Split off the group of `n` digits before a hyphen. -/
def uuidGroup (n : ℕ) (s : GoString) : Option (GoString × GoString) :=
  if s[n]? = some 45 then some (s.take n, s.drop (n + 1)) else none

def parseGroups (s : GoString) : Option UUID := do
  let (a, s) ← uuidGroup 8 s
  let (b, s) ← uuidGroup 4 s
  let (c, s) ← uuidGroup 4 s
  let (d, s) ← uuidGroup 4 s
  (ofDigits 16 hexValue (a ++ b ++ c ++ d ++ s.take 12)).map (BitVec.ofNat 128)

/-- `uuid.ParseBytes`: with hyphens, also as a URN or in braces, or the bare digits. -/
def parseUUID (s : GoString) : Option UUID :=
  if s.length = 36 then parseGroups s
  else if s.length = 45 then
    if foldName (s.take 9) = foldName (ascii "urn:uuid:") then parseGroups (s.drop 9) else none
  else if s.length = 38 then parseGroups (s.drop 1)
  else if s.length = 32 then (ofDigits 16 hexValue s).map (BitVec.ofNat 128)
  else none

def decodeUUID (cur : UUID) : Value → Option UUID
  | .null => some cur
  | .str raw => (unquote raw).bind parseUUID
  | _ => none

def decodeTxPointer (E : EthCodec) : Value → Option (Option Transaction)
  | .null => some none
  | v => (unmarshalTx E v).toOption.map some

def decodeAddresses (cur : Slice Address) (v : Value) : Option (Slice Address) :=
  decodeSlice 0 (fun _ => unmarshalAddress) cur v

inductive BidField
  | id | salt | decryptionCondition | allowedPeekers | allowedStores | version | creationTx | signature
  deriving DecidableEq, Repr

namespace BidField

def all : List BidField :=
  [id, salt, decryptionCondition, allowedPeekers, allowedStores, version, creationTx, signature]

def name : BidField → String
  | id => "Id"
  | salt => "Salt"
  | decryptionCondition => "DecryptionCondition"
  | allowedPeekers => "AllowedPeekers"
  | allowedStores => "AllowedStores"
  | version => "Version"
  | creationTx => "CreationTx"
  | signature => "Signature"

def set (E : EthCodec) : BidField → Bid → Value → Option Bid
  | id, b, x => (decodeId b.id x).map fun y => { b with id := y }
  | salt, b, x => (decodeId b.salt x).map fun y => { b with salt := y }
  | decryptionCondition, b, x =>
    (decodeUint 64 b.decryptionCondition.toNat x).map fun y =>
      { b with decryptionCondition := UInt64.ofNat y }
  | allowedPeekers, b, x =>
    (decodeAddresses b.allowedPeekers x).map fun y => { b with allowedPeekers := y }
  | allowedStores, b, x =>
    (decodeAddresses b.allowedStores x).map fun y => { b with allowedStores := y }
  | version, b, x => (decodeString b.version x).map fun y => { b with version := y }
  | creationTx, b, x => (decodeTxPointer E x).map fun y => { b with creationTx := y }
  | signature, b, x => (decodeByteSlice b.signature x).map fun y => { b with signature := y }

end BidField

def bidFormat (E : EthCodec) : RecordFormat BidField Bid where
  fields := BidField.all
  name := BidField.name
  set := BidField.set E
  token_name f := token_of_plain (by cases f <;> decide +kernel)
  lookup_name f := lookup_eq_some (by cases f <;> decide +kernel) (by cases f <;> decide) (by decide +kernel)

def emptyBid : Bid where
  id := 0
  salt := 0
  decryptionCondition := 0
  allowedPeekers := none
  allowedStores := none
  version := []
  creationTx := none
  signature := []

inductive WriteField
  | bid | caller | key | value
  deriving DecidableEq, Repr

namespace WriteField

def all : List WriteField := [bid, caller, key, value]

def name : WriteField → String
  | bid => "bid"
  | caller => "caller"
  | key => "key"
  | value => "value"

def set (E : EthCodec) : WriteField → StoreWrite → Value → Option StoreWrite
  | bid, w, x => ((bidFormat E).decode w.bid x).map fun y => { w with bid := y }
  | caller, w, x => (unmarshalAddress x).map fun y => { w with caller := y }
  | key, w, x => (decodeString w.key x).map fun y => { w with key := y }
  | value, w, x => (unmarshalBytes x).map fun y => { w with value := y }

end WriteField

def writeFormat (E : EthCodec) : RecordFormat WriteField StoreWrite where
  fields := WriteField.all
  name := WriteField.name
  set := WriteField.set E
  token_name f := token_of_plain (by cases f <;> decide +kernel)
  lookup_name f := lookup_eq_some (by cases f <;> decide +kernel) (by cases f <;> decide) (by decide +kernel)

def emptyWrite : StoreWrite where
  bid := emptyBid
  caller := 0
  key := []
  value := []

inductive MessageField
  | sourceTx | storeWrites | storeUUID | signature
  deriving DecidableEq, Repr

namespace MessageField

def all : List MessageField := [sourceTx, storeWrites, storeUUID, signature]

def name : MessageField → String
  | sourceTx => "sourceTx"
  | storeWrites => "storeWrites"
  | storeUUID => "storeUUID"
  | signature => "signature"

def set (E : EthCodec) : MessageField → DAMessage → Value → Option DAMessage
  | sourceTx, m, x => (decodeTxPointer E x).map fun y => { m with sourceTx := y }
  | storeWrites, m, x =>
    (decodeSlice emptyWrite (writeFormat E).decode m.storeWrites x).map fun y =>
      { m with storeWrites := y }
  | storeUUID, m, x => (decodeUUID m.storeUUID x).map fun y => { m with storeUUID := y }
  | signature, m, x => (unmarshalBytes x).map fun y => { m with signature := y }

end MessageField

def messageFormat (E : EthCodec) : RecordFormat MessageField DAMessage where
  fields := MessageField.all
  name := MessageField.name
  set := MessageField.set E
  token_name f := token_of_plain (by cases f <;> decide +kernel)
  lookup_name f := lookup_eq_some (by cases f <;> decide +kernel) (by cases f <;> decide) (by decide +kernel)

/-- The message that a message is decoded into. -/
def emptyMessage : DAMessage where
  sourceTx := none
  storeWrites := none
  storeUUID := 0
  signature := []

/-! ### The transport -/

/-- `RedisPubSubTransport.Publish`: what is sent to the other stores. -/
def publish (C : Crypto) (E : EthCodec) (message : DAMessage) : GoString :=
  hexBytes (print (messageJson C E message))

/-- `common.Hex2Bytes`: the bytes before the first mistake. -/
def hex2Bytes : GoString → Bytes
  | a :: b :: s =>
    match hexValue a, hexValue b with
    | some x, some y => UInt8.ofNat (x * 16 + y) :: hex2Bytes s
    | _, _ => []
  | _ => []

/-- `RedisPubSubTransport.Subscribe`: the message in what has been received.  What cannot be read is
dropped. -/
def subscribe (E : EthCodec) (payload : GoString) : Option DAMessage :=
  (parse (hex2Bytes payload)).bind ((messageFormat E).decode emptyMessage)

end Suift
