import Suift.Lib.Rlp
import Suift.Lib.Text
import Suift.Lib.Abi
import Suift.Lib.Fallible
import Suift.Lib.AbiLemmas
import Suift.Lib.Base64
import Suift.Lib.Database
import Suift.Lib.ExchangeSort
import Suift.Lib.Frames
import Suift.Lib.Utf8
import Suift.Lib.Json
import Suift.Lib.JsonLemmas
import Suift.Lib.JsonDecode
import Suift.Lib.JsonStrings
import Suift.Lib.LostUpdate
import Suift.Lib.RlpStream
import Suift.Lib.RlpTags
import Suift.Lib.RlpLemmas
import Suift.Lib.Stateful
import Suift.Lib.WriteLog
import Suift.Types.Basic
import Suift.Types.Hexutil
import Suift.Types.Transaction
import Suift.Types.Signing
import Suift.Types.Json
import Suift.Types.Binary
import Suift.Types.SBundle
import Suift.Types.SignTx
import Suift.Types.Equiv.Binary
import Suift.Types.Equiv.Signing
import Suift.Types.Equiv.Json
import Suift.Types.Equiv.Replay
import Suift.CStore.Bid
import Suift.CStore.Json
import Suift.CStore.LocalStore
import Suift.CStore.DatabaseBackends
import Suift.CStore.AbstractStore
import Suift.CStore.Engine
import Suift.CStore.TransactionalStore
import Suift.CStore.Node
import Suift.CStore.AccountManager
import Suift.CStore.AtomicBackend
import Suift.CStore.Mock
import Suift.CStore.Network
import Suift.CStore.Equiv.Json
import Suift.CStore.Equiv.Engine
import Suift.CStore.Equiv.LocalStore
import Suift.CStore.Equiv.TransactionalStore
import Suift.CStore.Equiv.Validation
import Suift.CStore.Equiv.Growth
import Suift.CStore.Equiv.OwnMessages
import Suift.CStore.Equiv.Redelivery
import Suift.CStore.Equiv.Acceptance
import Suift.CStore.Equiv.BidId
import Suift.CStore.Equiv.Recording
import Suift.CStore.Equiv.Node
import Suift.CStore.Equiv.Commit
import Suift.CStore.Equiv.DatabaseBackends
import Suift.CStore.Equiv.Refinement
import Suift.CStore.Equiv.Concurrent
import Suift.CStore.Equiv.Finalize
import Suift.CStore.Equiv.Received
import Suift.CStore.Equiv.Transport
import Suift.CStore.Equiv.Network
import Suift.CStore.Equiv.Panics
import Suift.CStore.Equiv.Replicas
import Suift.VM.SuaveContext
import Suift.VM.Bundles
import Suift.VM.EthBackend
import Suift.VM.Precompiles
import Suift.VM.Evm
import Suift.VM.Libraries
import Suift.VM.RuntimeAdapter
import Suift.VM.Equiv.Libraries
import Suift.VM.Equiv.Bundles
import Suift.VM.Equiv.Evm
import Suift.VM.Equiv.Moments
import Suift.VM.Equiv.Rollback
import Suift.VM.Equiv.AccessControl
import Suift.VM.Equiv.CallerStack
import Suift.VM.Equiv.Panics
import Suift.VM.Equiv.RuntimeAdapter
import Suift.Api.RunMevm
import Suift.Api.Equiv.RunMevm
import Suift.Miner.Worker
import Suift.Miner.Transfers
import Suift.Miner.Equiv.Worker
import Suift.Miner.Equiv.Payments
import Suift.Auction.Storage
import Suift.Auction.Evaluation
import Suift.Auction.Contract
import Suift.Auction.Factory
import Suift.Auction.Ledger
import Suift.Auction.Equiv.Evaluation
import Suift.Auction.Equiv.Calls
import Suift.Auction.Equiv.Rebates
import Suift.Auction.Equiv.Attendance
import Suift.Auction.Equiv.Sorting
import Suift.Auction.Equiv.Bidding
import Suift.Auction.Equiv.Factory
import Suift.Auction.Equiv.Reevaluation
import Suift.Auction.Equiv.Tickets
import Suift.Auction.Equiv.Sale
import Suift.Peekers.Bids
import Suift.Peekers.Equiv.Bids
