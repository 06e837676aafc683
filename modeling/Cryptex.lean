import Cryptex.BlockStore
import Cryptex.Blockchain
import Cryptex.ChainState
import Cryptex.Coherence
import Cryptex.HeaderTree
import Cryptex.MerkleRoot
import Cryptex.Difficulty
import Cryptex.Mempool
import Cryptex.Utxo
import Cryptex.Startup
import Cryptex.Validation
import Cryptex.Lib.Forest
import Cryptex.KnownBlocks
import Cryptex.Outcome
import Cryptex.Activation
import Cryptex.Purge
import Cryptex.AcceptRules
import Cryptex.Loading
import Cryptex.Opening
import Cryptex.BlockFiles
import Cryptex.Repair
import Cryptex.Constructor
import Cryptex.Run
import Cryptex.Rejection
import Cryptex.Redelivery
import Cryptex.WireFormat
import Cryptex.MempoolConsensus
import Cryptex.MempoolInvariant
import Cryptex.MempoolClosure
import Cryptex.OrphanOrder
import Cryptex.Regtest
import Cryptex.RegtestRun
import Cryptex.Credit
import Cryptex.Heights
import Cryptex.Lookup
import Cryptex.Restart
import Cryptex.Diagnosis
import Cryptex.Template
import Cryptex.Backing
import Cryptex.Mineable
import Cryptex.TemplateValid
import Cryptex.Ledger
import Cryptex.FileOps
import Cryptex.Reopening
import Cryptex.Interruption
import Cryptex.Bridge.Conservation
import Cryptex.Bridge.RedemptionLog
import Cryptex.Encoding.Base58
import Cryptex.Encoding.Address
import Cryptex.Bridge.NativeJson
import Cryptex.Wallet
import Cryptex.Bridge.Memo
import Cryptex.Lib.Interaction
import Cryptex.Lib.OrderedDict
import Cryptex.Bridge.Daemon
import Cryptex.Bridge.DaemonFrames
import Cryptex.Bridge.Releases
import Cryptex.Bridge.DepositId
import Cryptex.Bridge.Mints
import Cryptex.Bridge.Isolation
import Cryptex.Bridge.AddressHistory
import Cryptex.Bridge.DepositScan
import Cryptex.HdWallet
import Cryptex.WalletKeys
import Cryptex.WalletFile
import Cryptex.WalletSurvival
import Cryptex.Network.ChatPayload
import Cryptex.Network.ChatDelivery
import Cryptex.Network.VoiceCall
import Cryptex.Network.VoiceBinding
import Cryptex.Network.VoiceWire
import Cryptex.Network.VoiceFrames
import Cryptex.Lib.Table
import Cryptex.Network.MailStore
import Cryptex.Network.MailReceipts
import Cryptex.Network.MailVerified
import Cryptex.Network.MailSlashing
import Cryptex.Lib.Window
import Cryptex.Network.BlockDownload
import Cryptex.Network.DownloadBookkeeping
import Cryptex.CompactTargets
import Cryptex.DifficultyBounds
import Cryptex.EmergencyLags
import Cryptex.Selection
import Cryptex.Rpc.Json
import Cryptex.Rpc.JsonRoundTrip
import Cryptex.FailedActivation
import Cryptex.HeaderSync
import Cryptex.Lib.Registry
import Cryptex.Network.PeerHeights
import Cryptex.Network.LiveHeights
import Cryptex.Network.PeerStates
import Cryptex.Network.Punishment
import Cryptex.Network.ChatHistory
import Cryptex.Network.MailImport
import Cryptex.LocalMiner
import Cryptex.Lib.Keccak
import Cryptex.Miner.LaneKeccak
import Cryptex.Miner.SuffixHash
import Cryptex.Miner.JobBytes
import Cryptex.Miner.NonceSearch
import Cryptex.Miner.WorkerJob
import Cryptex.Bip39Words
import Cryptex.Lib.BitGroups
import Cryptex.SyncApproval
import Cryptex.Bip39
import Cryptex.ChainstateFile
import Cryptex.MempoolReport
import Cryptex.WalletPlaintext
import Cryptex.Miner.NonceRanges
import Cryptex.Lib.GapScan
import Cryptex.WalletRescan
import Cryptex.Lib.CoinReplay
import Cryptex.WalletHistory
import Cryptex.HistoryBalance
import Cryptex.PaymentRelay
import Cryptex.Encoding.Base32
import Cryptex.Lib.TextLines
import Cryptex.Network.HistoryLines
import Cryptex.Network.ChatWire
import Cryptex.Network.MailPayloads
import Cryptex.Network.PeerPayloads
import Cryptex.Lib.Runs
import Cryptex.Network.MailLookup
import Cryptex.Network.MailNaming
import Cryptex.Lib.Intervals
import Cryptex.Network.PeerOps
import Cryptex.Network.ScoreDecay
import Cryptex.Network.PeerStateFile
import Cryptex.Intelligence.Bus
import Cryptex.Intelligence.Service
import Cryptex.Intelligence.RemoteRequests
import Cryptex.OrphanPromotion
import Cryptex.Rpc.StringLiterals
import Cryptex.Lib.Interpreter
import Cryptex.Script.Machine
import Cryptex.Script.Program
import Cryptex.Script.Payment
import Cryptex.Script.Limits
import Cryptex.Bridge.AdminRules
import Cryptex.Bridge.Vendored
import Cryptex.Lib.Provenance
import Cryptex.Bridge.Authority
import Cryptex.Bridge.Allowances
import Cryptex.Lib.Framing
import Cryptex.Network.MessageFraming
import Cryptex.Network.ChatSecurity
import Cryptex.Lib.Newest
import Cryptex.Network.MailReplicas
