import Cryptex.Types

/-!
# Advisory requests

The data of `intelligence_types.hpp`: snapshots, requests, providers and their
answers. A `double` is of a type of its own.
-/

namespace Cryptex

namespace Intelligence

inductive ProviderKind where
  | none
  | rulesOnly
  | gemini
  | groq
deriving DecidableEq

inductive AdvisoryKind where
  | unknown
  | networkHealth
  | transactionRisk
  | miningHealth
  | communicationSafety
  | chainActivity
  | protocolExplanation
deriving DecidableEq

inductive Severity where
  | info
  | low
  | medium
  | high
  | critical
deriving DecidableEq

/-! ## Snapshots -/

structure NetworkSnapshot where
  localHeight : UInt64
  bestPeerHeight : UInt64
  connectedPeers : UInt32
  validatedPeers : UInt32
  inboundPeers : UInt32
  outboundPeers : UInt32
  reconnectEvents1h : UInt32
  malformedMessages1h : UInt32
  syncing : Bool
  lanOnly : Bool
deriving DecidableEq

structure MiningSnapshot (F : Type) where
  chainHeight : UInt64
  activeThreads : UInt32
  staleCandidates1h : UInt32
  rejectedCandidates1h : UInt32
  hashRateMhps : F
  avgBlockIntervalSeconds : F
  syncApproved : Bool
  externalWorkerOnline : Bool
deriving DecidableEq

structure WalletRiskSnapshot where
  walletLoaded : Bool
  walletApproved : Bool
  inputCount : UInt32
  outputCount : UInt32
  spendValueSats : Int64
  availableBalanceSats : Int64
  newRecipient : Bool
  highValueRelativeToBalance : Bool
  fragmentedOutputs : Bool
  dustLikePattern : Bool
  containsPrivateNote : Bool
deriving DecidableEq

structure CommsSnapshot where
  dhtPeers : UInt32
  deliveryFailures1h : UInt32
  proofFailures1h : UInt32
  suspiciousContacts1h : UInt32
  relayOnlyRouting : Bool
  mail2faEnabled : Bool
  containsPrivateContent : Bool
deriving DecidableEq

structure ChainActivitySnapshot (F : Type) where
  bestHeight : UInt64
  currentBits : UInt32
  mempoolTransactions : UInt64
  recentLargeTransfers : UInt64
  activeAddressCount24h : UInt64
  avgBlockIntervalSeconds : F
  feeRateMedianSats : F
deriving DecidableEq

structure SnapshotBundle (F : Type) where
  network : Option NetworkSnapshot := none
  mining : Option (MiningSnapshot F) := none
  wallet : Option WalletRiskSnapshot := none
  comms : Option CommsSnapshot := none
  chain : Option (ChainActivitySnapshot F) := none
deriving DecidableEq

/-! ## Requests and answers -/

structure ProviderRequest (F : Type) where
  requestId : Bytes := []
  kind : AdvisoryKind := .unknown
  snapshots : SnapshotBundle F := {}
  preferredProvider : Option ProviderKind := none
  requiresRemoteProvider : Bool := false
  containsSensitiveWalletData : Bool := false
  containsSensitiveMessageContent : Bool := false
  allowPublicWebGrounding : Bool := false
  allowRemoteStorage : Bool := false
  operatorPrompt : Bytes := []
  systemContext : Bytes := []
deriving DecidableEq

structure EvidenceItem (F : Type) where
  key : Bytes
  value : Bytes
  numericValue : Option F := none
  isSensitive : Bool := false

structure Recommendation where
  code : Bytes
  text : Bytes
  operatorConfirmationRequired : Bool := true

structure AdvisoryResult (F : Type) where
  kind : AdvisoryKind := .unknown
  provider : ProviderKind := .none
  severity : Severity := .info
  generatedAt : Bytes := []
  confidence : Option F := none
  score : Option Int64 := none
  summary : Bytes := []
  reasons : List Bytes := []
  recommendations : List Recommendation := []
  evidence : List (EvidenceItem F) := []
  operatorConfirmationRequired : Bool := true
  remoteGenerated : Bool := false
  valid : Bool := true
  diagnostic : Bytes := []

structure ProviderResponse (F : Type) where
  provider : ProviderKind := .none
  accepted : Bool := false
  diagnostic : Bytes := []
  advisory : Option (AdvisoryResult F) := none

structure ProviderCapabilities where
  kind : ProviderKind := .none
  displayName : Bytes := []
  remote : Bool := false
  supportsStructuredOutput : Bool := false
  supportsFunctionCalls : Bool := false
  supportsBackgroundTasks : Bool := false
  supportedKinds : List AdvisoryKind := []
deriving DecidableEq

def ProviderCapabilities.supports (c : ProviderCapabilities) (kind : AdvisoryKind) : Bool :=
  c.supportedKinds = [] || c.supportedKinds.contains kind

/-- `InferenceProvider`. -/
structure InferenceProvider (F : Type) where
  capabilities : ProviderCapabilities
  analyze : ProviderRequest F → ProviderResponse F

end Intelligence

end Cryptex
