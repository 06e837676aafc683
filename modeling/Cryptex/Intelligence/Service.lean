import Cryptex.HdWallet
import Cryptex.Intelligence.Bus
import Cryptex.Network.PeerHeights
import Cryptex.SyncApproval

/-!
# The service

`IntelligenceService`: each call collects snapshots, builds a request from them
and hands it to the bus.
-/

namespace Cryptex

open Encoding

namespace Intelligence

/-- What is done with values of type `double`. -/
structure DoubleOps (F : Type) where
  zero : F
  ratio : UInt64 → UInt64 → F
  positive : F → Bool

/-- What the collector reads of the node: `sync_status` and
`dht_mailbox_status`. -/
structure NodeReader where
  sync : Peers.SyncStatus
  activePeers : Nat
  portMappingActive : Bool
  relayFallback : Bool
  relaySuccesses : UInt64

/-! ## Telemetry -/

structure NetworkTelemetry where
  inboundPeers : UInt32 := 0
  outboundPeers : UInt32 := 0
  reconnectEvents1h : UInt32 := 0
  malformedMessages1h : UInt32 := 0
  lanOnly : Bool := false

structure MiningTelemetry (F : Type) where
  activeThreads : UInt32
  staleCandidates1h : UInt32
  rejectedCandidates1h : UInt32
  hashRateMhps : F
  avgBlockIntervalSeconds : F
  externalWorkerOnline : Bool

structure TransactionDraftSignals where
  inputCount : UInt32 := 0
  outputCount : UInt32 := 0
  spendValueSats : Int64 := 0
  newRecipient : Bool := false
  highValueRelativeToBalanceHint : Bool := false
  fragmentedOutputsHint : Bool := false
  dustLikePatternHint : Bool := false
  containsPrivateNote : Bool := false
deriving DecidableEq

structure CommsTelemetry where
  deliveryFailures1h : UInt32 := 0
  proofFailures1h : UInt32 := 0
  suspiciousContacts1h : UInt32 := 0
  relayOnlyRouting : Bool := false
  mail2faEnabled : Bool := false
  containsPrivateContent : Bool := false

/-! ## Collectors -/

/-- The heights from `start` to `stop`. -/
def heightsBetween (start stop : Nat) : List Nat := (List.range (stop + 1)).filter (start ≤ ·)

/-- The sum of the intervals before the blocks of the window, and their
number. -/
def blockIntervals (chain : Blockchain) (window : Nat) : UInt64 × UInt64 :=
  let stop := chain.bestHeight
  let start := if stop > window then stop - window else 1
  (heightsBetween start stop).foldl (fun (total, intervals) height =>
    match chain.getBlock height, chain.getBlock (height - 1) with
    | some current, some previous =>
        if current.header.timestamp ≥ previous.header.timestamp then
          (total + (current.header.timestamp - previous.header.timestamp).toUInt64, intervals + 1)
        else (total, intervals)
    | _, _ => (total, intervals)) (0, 0)

/-- `average_block_interval_seconds`. -/
def averageBlockIntervalSeconds {F : Type} (ops : DoubleOps F) (chain : Blockchain) (window : Nat) :
    F :=
  if chain.bestHeight = 0 ∨ window = 0 then ops.zero
  else
    let (total, intervals) := blockIntervals chain window
    if intervals = 0 then ops.zero else ops.ratio total intervals

/-- `count_recent_large_transfers`. -/
def countRecentLargeTransfers (chain : Blockchain) (window : Nat) (thresholdSats : Int64) :
    UInt64 :=
  if chain.bestHeight = 0 ∨ window = 0 ∨ thresholdSats ≤ 0 then 0
  else
    let stop := chain.bestHeight
    let start := if stop > window then stop - window + 1 else 0
    let outputs := (heightsBetween start stop).flatMap fun height =>
      match chain.getBlock height with
      | none => []
      | some block => block.transactions.toList.flatMap fun tx => tx.outputs.toList
    UInt64.ofNat (outputs.countP fun out => out.value ≥ thresholdSats)

section

variable {F : Type} (ops : DoubleOps F)

def collectChain (chain : Blockchain) : ChainActivitySnapshot F where
  bestHeight := UInt64.ofNat chain.bestHeight
  currentBits := chain.tipBits
  mempoolTransactions := UInt64.ofNat chain.mempool.txs.keys.card
  avgBlockIntervalSeconds := averageBlockIntervalSeconds ops chain 12
  recentLargeTransfers := countRecentLargeTransfers chain 24 10000000000
  activeAddressCount24h := 0
  feeRateMedianSats := ops.zero

def collectNetwork (node : NodeReader) (telemetry : NetworkTelemetry) : NetworkSnapshot where
  localHeight := UInt64.ofNat node.sync.localHeight
  bestPeerHeight := UInt64.ofNat node.sync.bestPeerHeight
  connectedPeers := UInt32.ofNat node.sync.connectedPeers
  validatedPeers := UInt32.ofNat node.sync.validatedPeers
  inboundPeers := telemetry.inboundPeers
  outboundPeers := telemetry.outboundPeers
  reconnectEvents1h := telemetry.reconnectEvents1h
  malformedMessages1h := telemetry.malformedMessages1h
  syncing := node.sync.syncing
  lanOnly := telemetry.lanOnly

def collectMining (chain : Blockchain) (node : Option NodeReader) (telemetry : MiningTelemetry F) :
    MiningSnapshot F :=
  let approved := chain.walletStateApproved
  { chainHeight := UInt64.ofNat chain.bestHeight
    activeThreads := telemetry.activeThreads
    staleCandidates1h := telemetry.staleCandidates1h
    rejectedCandidates1h := telemetry.rejectedCandidates1h
    hashRateMhps := telemetry.hashRateMhps
    avgBlockIntervalSeconds :=
      if ops.positive telemetry.avgBlockIntervalSeconds then telemetry.avgBlockIntervalSeconds
      else averageBlockIntervalSeconds ops chain 12
    syncApproved :=
      match node with
      | some node => if node.sync.syncing && approved then false else approved
      | none => approved
    externalWorkerOnline := telemetry.externalWorkerOnline }

def collectComms (node : NodeReader) (telemetry : CommsTelemetry) : CommsSnapshot where
  dhtPeers := UInt32.ofNat node.activePeers
  deliveryFailures1h := telemetry.deliveryFailures1h
  proofFailures1h := telemetry.proofFailures1h
  suspiciousContacts1h := telemetry.suspiciousContacts1h
  relayOnlyRouting := telemetry.relayOnlyRouting ||
    (!node.portMappingActive && node.relayFallback && node.relaySuccesses > 0)
  mail2faEnabled := telemetry.mail2faEnabled
  containsPrivateContent := telemetry.containsPrivateContent

end

/-- What a wallet reads of the chain; `order` is the order in which the unspent
outputs are traversed. -/
def readerOf (order : FinMap.VisitOrder OutPoint UTXOEntry) (chain : Blockchain) : ChainReader where
  approved := chain.walletStateApproved
  bestHeight := UInt64.ofNat chain.bestHeight
  utxo := chain.utxo
  order := order
  blocks := (List.range (chain.bestHeight + 1)).filterMap chain.getBlock

def collectWallet (lib : KeyLib) (order : FinMap.VisitOrder OutPoint UTXOEntry) (wallet : HdWallet)
    (chain : Blockchain) (signals : TransactionDraftSignals) : WalletRiskSnapshot :=
  let balance := wallet.balanceSummary lib (readerOf order chain)
  let unspent := wallet.listUnspent lib (readerOf order chain)
  { walletLoaded := wallet.address ≠ []
    walletApproved := balance.approved
    inputCount := signals.inputCount
    outputCount := signals.outputCount
    spendValueSats := signals.spendValueSats
    availableBalanceSats := balance.spendable
    newRecipient := signals.newRecipient
    highValueRelativeToBalance := signals.highValueRelativeToBalanceHint ||
      (balance.spendable > 0 && signals.spendValueSats ≥ balance.spendable / 2)
    fragmentedOutputs := signals.fragmentedOutputsHint ||
      (unspent.length ≥ 20 && signals.inputCount ≥ 4)
    dustLikePattern := signals.dustLikePatternHint ||
      (signals.outputCount ≥ 8 && signals.spendValueSats > 0 && signals.spendValueSats ≤ 100000)
    containsPrivateNote := signals.containsPrivateNote }

/-! ## Calls -/

/-- The fields of `IntelligenceConfig` that the service reads. -/
structure IntelligenceConfig where
  defaultProvider : ProviderKind := .rulesOnly
  policy : IntelligencePolicy := {}
deriving DecidableEq

/-- `RulesOnlyProvider`; what it makes of a request is `advise`. -/
def rulesOnlyProvider {F : Type} (advise : ProviderRequest F → ProviderResponse F) :
    InferenceProvider F where
  capabilities :=
    { kind := .rulesOnly
      displayName := chars "rules-only"
      supportsStructuredOutput := true
      supportedKinds := [.networkHealth, .transactionRisk, .miningHealth, .communicationSafety,
        .chainActivity, .protocolExplanation] }
  analyze := advise

structure IntelligenceService (F : Type) where
  config : IntelligenceConfig
  bus : IntelligenceBus F

/-- An `analyze` call with its arguments, but for the wallet. -/
inductive AnalyzeCall (F : Type) where
  | networkHealth (chain : Blockchain) (node : NodeReader) (telemetry : NetworkTelemetry)
      (operatorPrompt systemContext : Bytes)
  | miningHealth (chain : Blockchain) (node : Option NodeReader) (telemetry : MiningTelemetry F)
      (operatorPrompt systemContext : Bytes)
  | chainActivity (chain : Blockchain) (operatorPrompt systemContext : Bytes)
  | transactionRisk (chain : Blockchain) (signals : TransactionDraftSignals)
      (operatorPrompt systemContext : Bytes)
  | communicationSafety (node : NodeReader) (telemetry : CommsTelemetry)
      (operatorPrompt systemContext : Bytes)
  | explainProtocol (operatorPrompt systemContext : Bytes)
      (preferredProvider : Option ProviderKind) (allowPublicWebGrounding : Bool)

namespace IntelligenceService

variable {F : Type}

def new (now : Bytes) (advise : ProviderRequest F → ProviderResponse F)
    (config : IntelligenceConfig) : IntelligenceService F :=
  ⟨config, (IntelligenceBus.new now config.policy).registerProvider
    (some (rulesOnlyProvider advise))⟩

def registerProvider (service : IntelligenceService F) (provider : Option (InferenceProvider F)) :
    IntelligenceService F :=
  { service with bus := service.bus.registerProvider provider }

/-- A service with providers registered in order. -/
def withProviders (now : Bytes) (advise : ProviderRequest F → ProviderResponse F)
    (config : IntelligenceConfig) (providers : List (Option (InferenceProvider F))) :
    IntelligenceService F :=
  providers.foldl registerProvider (new now advise config)

/-- `apply_defaults`; `id` is what `make_request_id` returns. -/
def applyDefaults (service : IntelligenceService F) (id : Bytes) (request : ProviderRequest F) :
    ProviderRequest F :=
  { request with
    requestId := if request.requestId = [] then id else request.requestId
    preferredProvider :=
      if request.preferredProvider.isNone ∧ service.config.defaultProvider ≠ .none then
        some service.config.defaultProvider
      else request.preferredProvider }

section

variable (ops : DoubleOps F) (lib : KeyLib) (order : FinMap.VisitOrder OutPoint UTXOEntry)

/-- What the `build` functions fill in before the defaults. -/
def draftRequest (wallet : HdWallet) : AnalyzeCall F → ProviderRequest F
  | .networkHealth chain node telemetry operatorPrompt systemContext =>
      { kind := .networkHealth
        snapshots :=
          { network := some (collectNetwork node telemetry), chain := some (collectChain ops chain) }
        operatorPrompt := operatorPrompt
        systemContext := systemContext }
  | .miningHealth chain node telemetry operatorPrompt systemContext =>
      { kind := .miningHealth
        snapshots :=
          { mining := some (collectMining ops chain node telemetry)
            chain := some (collectChain ops chain) }
        operatorPrompt := operatorPrompt
        systemContext := systemContext }
  | .chainActivity chain operatorPrompt systemContext =>
      { kind := .chainActivity
        snapshots := { chain := some (collectChain ops chain) }
        operatorPrompt := operatorPrompt
        systemContext := systemContext }
  | .transactionRisk chain signals operatorPrompt systemContext =>
      { kind := .transactionRisk
        snapshots :=
          { wallet := some (collectWallet lib order wallet chain signals)
            chain := some (collectChain ops chain) }
        containsSensitiveWalletData := signals.spendValueSats > 0 || signals.containsPrivateNote
        containsSensitiveMessageContent := signals.containsPrivateNote
        operatorPrompt := operatorPrompt
        systemContext := systemContext }
  | .communicationSafety node telemetry operatorPrompt systemContext =>
      { kind := .communicationSafety
        snapshots := { comms := some (collectComms node telemetry) }
        containsSensitiveMessageContent := telemetry.containsPrivateContent
        operatorPrompt := operatorPrompt
        systemContext := systemContext }
  | .explainProtocol operatorPrompt systemContext preferredProvider allowPublicWebGrounding =>
      { kind := .protocolExplanation
        preferredProvider := preferredProvider
        allowPublicWebGrounding := allowPublicWebGrounding
        requiresRemoteProvider :=
          match preferredProvider with
          | some kind => kind ≠ .rulesOnly ∧ kind ≠ .none
          | none => false
        operatorPrompt := operatorPrompt
        systemContext := systemContext }

def buildRequest (service : IntelligenceService F) (id : Bytes) (wallet : HdWallet)
    (call : AnalyzeCall F) : ProviderRequest F :=
  service.applyDefaults id (draftRequest ops lib order wallet call)

/-- One `analyze` call. -/
def analyze (service : IntelligenceService F) (now id : Bytes) (wallet : HdWallet)
    (call : AnalyzeCall F) : IntelligenceBus.Analysis F :=
  service.bus.analyze now (service.buildRequest ops lib order id wallet call)

/-- The request that the call hands to a remote provider, if it does, with the
kind of the provider. -/
def remoteRequest (service : IntelligenceService F) (now id : Bytes) (wallet : HdWallet)
    (call : AnalyzeCall F) : Option (ProviderKind × ProviderRequest F) :=
  match (service.analyze ops lib order now id wallet call).handedTo with
  | some provider =>
      if provider.capabilities.remote then
        some (provider.capabilities.kind, service.buildRequest ops lib order id wallet call)
      else none
  | none => none

end

end IntelligenceService

end Intelligence

end Cryptex
