import Amberchain.BestChain.CompleteRuns
import Amberchain.BestChain.SkipList
import Amberchain.Download.Bookkeeping
import Amberchain.Entity.CrashRecovery
import Amberchain.Entity.Identity
import Amberchain.Handshake.Authentication
import Amberchain.Interpreter.InputsStandard
import Amberchain.Interpreter.MultisigSpending
import Amberchain.Interpreter.Pruning
import Amberchain.Json.UbjsonRoundTrip
import Amberchain.Json.UbjsonSafety
import Amberchain.MemPool.PoolRuns
import Amberchain.Miner.AdminFeeSpec
import Amberchain.Miner.MerkleBranch
import Amberchain.Net.Messages
import Amberchain.ParamSet.BuiltSpec
import Amberchain.Permission.CounterRuns
import Amberchain.Permission.CrashRecovery
import Amberchain.Permission.ForkMiners
import Amberchain.Permission.GrantRecords
import Amberchain.Script.DetailsGrammar
import Amberchain.Startup.Reconcile
import Amberchain.Storage.CoinsSerialize
import Amberchain.Storage.Reached
import Amberchain.Transaction.Authorised
import Amberchain.Transaction.MergedAmounts
import Amberchain.Transaction.NameBuffers
import Amberchain.Upgrades.VersionRuns
import Amberchain.Utils.Buffer
import Amberchain.Validation.ConnectTip
import Amberchain.Validation.GovernanceLock
import Amberchain.Wallet.BlockItems
import Amberchain.Wallet.ListRuns
import Amberchain.Wallet.PublisherSpec
