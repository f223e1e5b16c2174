import Suift.CStore.AccountManager
import Suift.CStore.Json
import Suift.Types.Equiv.Signing

/-!
# The engine with its mock signers

`engine.go` brings mock signers for its tests: `MockSigner` signs with the bare address, and
`MockChainSigner` is the real `suaveSigner` except on a missing transaction.  With an encoding and a
hash that are small enough to evaluate they make up `mockConfig`, the engine of the concrete runs in
this development.  `mockJsonConfig` is the same engine with the JSON encoding.
-/

namespace Suift

open Rlp

def mockSigner : DASigner where
  sign account _ := .ok (bigEndian 20 account.toNat)
  sender _ signature := .ok (signature.foldl (fun n b => n * 256 + BitVec.ofNat 160 b.toNat) 0)
  localAddresses := []

def mockChainSigner (crypto : Crypto) : Option Transaction → Except GoError Address
  | none => .ok 0
  | some tx => SuaveSigner.sender crypto tx.chainID tx

def itemOfInnerBid (bid : InnerBid) : Item :=
  .list [.word 16 bid.id.toNat, .word 16 bid.salt.toNat, .nat bid.decryptionCondition.toNat,
    .list (bid.allowedPeekers.elems.map fun a => .word 20 a.toNat),
    .list (bid.allowedStores.elems.map fun a => .word 20 a.toNat), .bytes bid.version]

/-- An encoding in the place of JSON; transactions are left out of it. -/
def mockEncoding : Encoding where
  marshalInnerBid bid := .ok (encode (itemOfInnerBid bid))
  marshalBid bid := .ok (encode (itemOfInnerBid bid.toInnerBid))
  marshalMessage message := .ok (encode (.list (message.storeWrites.elems.map fun sw =>
    .list [itemOfInnerBid sw.bid.toInnerBid, .word 20 sw.caller.toNat, .bytes sw.key,
      .bytes sw.value])))
  newSHA1 space data := data.foldl (fun n b => n * 257 + BitVec.ofNat 128 (b.toNat + 1)) space

def mockConfig : EngineConfig where
  json := mockEncoding
  daSigner := mockSigner
  chainSender := mockChainSigner SuaveSigner.sampleCrypto
  storeUUID := 1
  localAddresses := []

def mockJsonConfig : EngineConfig :=
  { mockConfig with json := jsonEncoding SuaveSigner.sampleCrypto mockCodec mockEncoding.newSHA1 }

/-- A request of the user with key `1` to the node with key `2`, with one byte of confidential
inputs. -/
def mockRequest : Transaction :=
  .request
    { confidentialComputeRecord := SuaveSigner.sampleSignRecord 1
        { SuaveSigner.sampleRecord with
          confidentialInputsHash := SuaveSigner.sampleCrypto.keccak256 [42] }
      confidentialInputs := [42] }

/-- A signature scheme in which a signature names the account and the data.  For other data it recovers
to another account. -/
def ideal : Bytes → Bytes → Except GoError Address := fun data signature =>
  if signature.drop 20 = data then .ok (BitVec.ofNat 160 (ofBigEndian (signature.take 20))) else .ok 0

theorem ideal_append (account : Address) (data : Bytes) :
    ideal data (bigEndian 20 account.toNat ++ data) = .ok account := by
  have hlt : account.toNat < 256 ^ 20 := by simpa using account.isLt
  have hlen : (bigEndian 20 account.toNat).length = 20 := length_bigEndian 20 _
  rw [ideal, List.drop_left' hlen, if_pos rfl, List.take_left' hlen, ofBigEndian_bigEndian hlt,
    BitVec.ofNat_toNat, BitVec.setWidth_eq]

theorem ideal_of_ne (account : Address) {data data' : Bytes} (h : data ≠ data') :
    ideal data' (bigEndian 20 account.toNat ++ data) = .ok 0 := by
  rw [ideal, List.drop_left' (length_bigEndian 20 _), if_neg h]

/-- Wallets that sign for these accounts. -/
def idealManager (accounts : List Address) : AccountManager ideal where
  accounts := accounts
  signData account data := .ok (bigEndian 20 account.toNat ++ data)
  sender_signData account data signature h := by
    rw [← Except.ok.inj h, ideal_append]

theorem sign_idealManager {accounts : List Address} {account : Address} (h : account ∈ accounts)
    (data : Bytes) :
    (idealManager accounts).sign account data = .ok (bigEndian 20 account.toNat ++ data) :=
  if_pos h

/-- An engine that is made before the node has any account. -/
def mockSetup : EngineSetup where
  json := mockEncoding
  sender := ideal
  chainSender := mockConfig.chainSender
  storeUUID := 1
  manager := idealManager []

/-- The mock engine signs the writes of a signed request, whatever they are. -/
theorem exists_signMessage_mockRequest (stores : Slice StoreWrite) :
    ∃ pwMsg, mockConfig.signMessage (some mockRequest) stores = .ok pwMsg := by
  have hsender : mockConfig.chainSender (some mockRequest) = .ok (SuaveSigner.sampleAddress 1) := by
    decide +kernel
  unfold EngineConfig.signMessage
  rw [hsender]
  exact ⟨_, rfl⟩

end Suift
