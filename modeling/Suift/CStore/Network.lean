import Suift.CStore.AccountManager
import Suift.CStore.Json
import Mathlib.Logic.Function.Basic

/-!
# Nodes that exchange messages

`RedisPubSubTransport.Subscribe` reads what comes in on the topic, and puts the messages into a channel
with room for sixteen; a message that finds the channel full is dropped.  A payload is decoded twice, into a
message and into a map that is not used any more.  `ProcessMessages` takes them out
one by one and hands them to `NewMessage`.  It does not ask whether the channel is still open, and so it
goes on with empty messages after the subscription has been cancelled.

A `Network` has any number of nodes with engines of their own.  They agree on the encoding and on how
signatures are checked.  The topic is not part of it: what a node receives is up to the environment, and it
may be anything.
-/

namespace Suift

/-! ### Subscriptions -/

/-- How payloads are decoded.  Whether the map can be made is a parameter: that depends on parts of the
payload that the message does not have, such as numbers that are too large. -/
structure Decoding where
  codec : EthCodec
  unmarshalsMap : Bytes → Bool

/-- The message in a payload, if both decodings succeed. -/
def Decoding.message (D : Decoding) (payload : GoString) : Option DAMessage :=
  (subscribe D.codec payload).filter fun _ => D.unmarshalsMap (hex2Bytes payload)

/-- The channel that `Subscribe` returns. -/
structure Subscription where
  channel : List DAMessage
  closed : Bool
  deriving DecidableEq

inductive SubscriptionEvent
  /-- A payload arrives on the topic. -/
  | receive (payload : GoString)
  /-- `ProcessMessages` reads from the channel. -/
  | take
  /-- The transport is stopped or the subscription is cancelled. -/
  | cancel

namespace Subscription

/-- `make(chan DAMessage, 16)`. -/
def capacity : ℕ := 16

/-- A subscription that has just been made. -/
def new : Subscription where
  channel := []
  closed := false

/-- The subscription after an event, and the message that was taken out.  An event that cannot occur has no
result: nothing is received after the end, and reading from an empty channel blocks while it is open. -/
def step (D : Decoding) (s : Subscription) : SubscriptionEvent → Option (Subscription × Option DAMessage)
  | .receive payload =>
    if s.closed then none
    else
      match D.message payload with
      | none => some (s, none)
      | some message =>
        if s.channel.length < capacity then
          some ({ s with channel := s.channel ++ [message] }, none)
        else some (s, none)
  | .take =>
    match s.channel with
    | message :: rest => some ({ s with channel := rest }, some message)
    -- a closed channel gives the zero value
    | [] => if s.closed then some (s, some emptyMessage) else none
  | .cancel => some ({ s with closed := true }, none)

end Subscription

/-! ### Networks -/

/-- What the nodes of a network are set up with. -/
structure NetworkSetup (ι : Type) where
  crypto : Crypto
  decoding : Decoding
  newSHA1 : UUID → Bytes → UUID
  sender : Bytes → Bytes → Except GoError Address
  chainSender : Option Transaction → Except GoError Address
  storeUUID : ι → UUID
  manager : ι → AccountManager sender

variable {ι : Type}

namespace NetworkSetup

variable (N : NetworkSetup ι)

def json : Encoding := jsonEncoding N.crypto N.decoding.codec N.newSHA1

/-- What the engine of node `i` is made with. -/
def setup (i : ι) : EngineSetup where
  json := N.json
  sender := N.sender
  chainSender := N.chainSender
  storeUUID := N.storeUUID i
  manager := N.manager i

end NetworkSetup

/-- A node that is subscribed to the topic. -/
structure Peer (S : EngineSetup) where
  managed : ManagedNode S LocalConfidentialStore
  subscription : Subscription

/-- What happens at a node. -/
inductive PeerAction (sender : Bytes → Bytes → Except GoError Address)
  | setManager (manager : AccountManager sender)
  | newTransactionalStore (sourceTx : Option Transaction)
  | apply (i : ℕ) (op : TransactionalStore.Op)
  | finalize (i : ℕ) (order : List Bid)
  | transport (e : SubscriptionEvent)

namespace Peer

variable {S : EngineSetup}

/-- A node that has just started on an empty store. -/
def init (S : EngineSetup) : Peer S where
  managed := .init S .empty
  subscription := .new

/-- Let the node take an action of its own. -/
def act (p : Peer S) (a : ManagedAction S) : Option (Peer S) :=
  (p.managed.step LocalConfidentialStore.backend a).map fun managed => { p with managed := managed }

/-- One step of a node.  The errors of `NewMessage` are only logged. -/
def step (D : Decoding) (p : Peer S) : PeerAction S.sender → Option (Peer S)
  | .setManager manager => p.act (.setManager manager)
  | .newTransactionalStore sourceTx => p.act (.node (.newTransactionalStore sourceTx))
  | .apply i op => p.act (.node (.apply i op))
  | .finalize i order => p.act (.node (.finalize i order))
  | .transport e =>
    match p.subscription.step D e with
    | none => none
    | some (s, none) => some { p with subscription := s }
    | some (s, some message) => { p with subscription := s }.act (.node (.newMessage message))

def run (D : Decoding) (p : Peer S) : List (PeerAction S.sender) → Option (Peer S)
  | [] => some p
  | a :: as => (p.step D a).bind fun p' => p'.run D as

end Peer

/-- The state of all nodes. -/
structure Network (N : NetworkSetup ι) where
  peers : (i : ι) → Peer (N.setup i)

/-- A step of one of the nodes. -/
structure NetworkAction (N : NetworkSetup ι) where
  node : ι
  action : PeerAction N.sender

namespace Network

variable {N : NetworkSetup ι} [DecidableEq ι]

def init (N : NetworkSetup ι) : Network N where
  peers i := .init (N.setup i)

/-- The network with another state of node `i`. -/
def setPeer (n : Network N) (i : ι) (p : Peer (N.setup i)) : Network N where
  peers := Function.update n.peers i p

def step (n : Network N) (a : NetworkAction N) : Option (Network N) :=
  ((n.peers a.node).step N.decoding a.action).map (n.setPeer a.node)

def run (n : Network N) : List (NetworkAction N) → Option (Network N)
  | [] => some n
  | a :: as => (n.step a).bind fun n' => n'.run as

end Network

end Suift
