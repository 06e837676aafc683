import Cryptex.ChainstateFile
import Cryptex.Intelligence.Service
import Cryptex.Lib.Observations
import Cryptex.RegtestRun
import Cryptex.WalletKeys

/-!
# What remote providers see of the wallet

Two runs of the same calls with different wallets, compared by the requests
that are handed to remote providers.
-/

namespace Cryptex

open Encoding Observations

namespace Intelligence

variable {F : Type}

/-- A request without its id. -/
def ProviderRequest.anonymous (request : ProviderRequest F) : ProviderRequest F :=
  { request with requestId := [] }

/-- What the bus looks at to find its way. -/
def ProviderRequest.routing (request : ProviderRequest F) : ProviderRequest F :=
  { request with requestId := [], snapshots := {} }

/-- Only the routing decides to whom a request is handed. -/
theorem handedTo_routing (bus : IntelligenceBus F) (now now' : Bytes) (request : ProviderRequest F) :
    (bus.analyze now request).handedTo = (bus.analyze now' request.routing).handedTo := by
  have hselect : bus.selectProvider request.routing = bus.selectProvider request := rfl
  rw [IntelligenceBus.analyze, IntelligenceBus.analyze, hselect]
  cases bus.selectProvider request with
  | none => rfl
  | some provider =>
      have hdecision : evaluateDispatch bus.policy provider.capabilities request.routing
          = evaluateDispatch bus.policy provider.capabilities request := rfl
      dsimp only
      rw [hdecision]
      split <;> rfl

/-- What differs between two runs: the wallet, and for each call the time and
the id of its request. -/
structure Surroundings where
  wallet : HdWallet
  now : Nat → Bytes
  id : Nat → Bytes

namespace IntelligenceService

section

variable (ops : DoubleOps F) (lib : KeyLib) (order : FinMap.VisitOrder OutPoint UTXOEntry)

/-- What a remote provider sees of the call of a number, request ids aside. -/
def observe (service : IntelligenceService F) (s : Surroundings) (call : AnalyzeCall F × Nat) :
    Option (ProviderKind × ProviderRequest F) :=
  (service.remoteRequest ops lib order (s.now call.2) (s.id call.2) s.wallet call.1).map
    fun handed => (handed.1, handed.2.anonymous)

/-- The requests handed to remote providers, request ids aside. -/
def remoteTrace (service : IntelligenceService F) (s : Surroundings) (calls : List (AnalyzeCall F)) :
    List (ProviderKind × ProviderRequest F) :=
  trace (service.observe ops lib order) s calls.zipIdx

end

variable {ops : DoubleOps F} {lib : KeyLib} {order : FinMap.VisitOrder OutPoint UTXOEntry}
variable {service : IntelligenceService F}

/-- The wallet does not decide to whom a request is handed. -/
theorem handedTo_eq (service : IntelligenceService F) (now now' id id' : Bytes)
    (wallet wallet' : HdWallet) (call : AnalyzeCall F) :
    (service.analyze ops lib order now id wallet call).handedTo
      = (service.analyze ops lib order now' id' wallet' call).handedTo := by
  have hrouting : (service.buildRequest ops lib order id wallet call).routing
      = (service.buildRequest ops lib order id' wallet' call).routing := by
    cases call <;> rfl
  rw [analyze, analyze, handedTo_routing _ now now', hrouting, ← handedTo_routing]

theorem announced_observe (service : IntelligenceService F) :
    Announced (service.observe ops lib order) := by
  intro s s' call
  rw [observe, observe, Option.isSome_map, Option.isSome_map, remoteRequest, remoteRequest,
    handedTo_eq service (s.now call.2) (s'.now call.2) (s.id call.2) (s'.id call.2) s.wallet s'.wallet]
  split
  · split <;> rfl
  · rfl

/-- A call that does not read the wallet is observed alike. -/
theorem independent_of_build {call : AnalyzeCall F × Nat}
    (h : ∀ id id' wallet wallet',
      (service.buildRequest ops lib order id wallet call.1).anonymous
        = (service.buildRequest ops lib order id' wallet' call.1).anonymous) :
    Independent (service.observe ops lib order) call := by
  intro s s'
  rw [observe, observe, remoteRequest, remoteRequest,
    handedTo_eq service (s.now call.2) (s'.now call.2) (s.id call.2) (s'.id call.2) s.wallet s'.wallet]
  split
  · split
    · rw [Option.map_some, Option.map_some, h (s.id call.2) (s'.id call.2) s.wallet s'.wallet]
    · rfl
  · rfl

/-! ## Draft payments -/

/-- The provider that `select_provider` finds for a draft payment. -/
def riskProvider (service : IntelligenceService F) : Option (InferenceProvider F) :=
  service.bus.selectProvider
    { kind := .transactionRisk
      preferredProvider :=
        if service.config.defaultProvider ≠ .none then some service.config.defaultProvider
        else none }

/-- The draft spends nothing and has no private note, and the configuration
sends it to a remote provider. -/
structure Exposed (service : IntelligenceService F) (signals : TransactionDraftSignals) : Prop where
  spends_nothing : signals.spendValueSats ≤ 0
  no_note : signals.containsPrivateNote = false
  enabled : service.config.policy.remoteProvidersEnabled = true
  provider : ∃ provider, service.riskProvider = some provider ∧
    provider.capabilities.remote = true ∧ provider.capabilities.supports .transactionRisk = true

/-- What the policy lets out: a remote provider gets a draft only if nothing
is marked as sensitive. -/
theorem allowed_remote_iff {policy : IntelligencePolicy} {capabilities : ProviderCapabilities}
    {request : ProviderRequest F} (hexport : policy.allowSensitiveWalletExport = false)
    (hremote : capabilities.remote = true) (hkind : request.kind = .transactionRisk)
    (hweb : request.allowPublicWebGrounding = false) (hstorage : request.allowRemoteStorage = false)
    (hnote : request.containsSensitiveMessageContent = true →
      request.containsSensitiveWalletData = true) :
    (evaluateDispatch policy capabilities request).allowed = true ↔
      capabilities.supports .transactionRisk = true ∧ policy.remoteProvidersEnabled = true ∧
        request.containsSensitiveWalletData = false := by
  rw [evaluateDispatch, hkind, hremote, hweb, hstorage, hexport]
  cases hsupports : capabilities.supports .transactionRisk with
  | false => simp [blocked]
  | true =>
      cases henabled : policy.remoteProvidersEnabled with
      | false => simp [blocked]
      | true =>
          cases hwallet : request.containsSensitiveWalletData with
          | true => simp [blocked]
          | false =>
              have hquiet : request.containsSensitiveMessageContent = false :=
                Bool.eq_false_iff.mpr fun h => by rw [hnote h] at hwallet; cases hwallet
              simp [hquiet]

variable {chain : Blockchain} {signals : TransactionDraftSignals}
variable {operatorPrompt systemContext : Bytes}

theorem risk_isSensitive_iff (signals : TransactionDraftSignals) :
    (signals.spendValueSats > 0 || signals.containsPrivateNote) = false ↔
      signals.spendValueSats ≤ 0 ∧ signals.containsPrivateNote = false := by
  rw [Bool.or_eq_false_iff, decide_eq_false_iff_not, gt_iff_lt, Int64.not_lt]

/-- A draft goes to a remote provider if and only if it is exposed. -/
theorem handed_remote_iff (hpolicy : service.bus.policy = service.config.policy)
    (hexport : service.config.policy.allowSensitiveWalletExport = false) (now id : Bytes)
    (wallet : HdWallet) :
    (∃ provider, (service.analyze ops lib order now id wallet
        (.transactionRisk chain signals operatorPrompt systemContext)).handedTo = some provider ∧
      provider.capabilities.remote = true) ↔ service.Exposed signals := by
  have hselect : service.bus.selectProvider (service.buildRequest ops lib order id wallet
      (.transactionRisk chain signals operatorPrompt systemContext)) = service.riskProvider := by
    rw [riskProvider]
    by_cases hdefault : service.config.defaultProvider = .none <;>
      simp [buildRequest, applyDefaults, draftRequest, IntelligenceBus.selectProvider, hdefault]
  have hallowed : ∀ provider : InferenceProvider F, provider.capabilities.remote = true →
      ((evaluateDispatch service.bus.policy provider.capabilities
        (service.buildRequest ops lib order id wallet
          (.transactionRisk chain signals operatorPrompt systemContext))).allowed = true ↔
        provider.capabilities.supports .transactionRisk = true ∧
          service.config.policy.remoteProvidersEnabled = true ∧
          (signals.spendValueSats > 0 || signals.containsPrivateNote) = false) := by
    intro provider hremote
    rw [hpolicy]
    refine allowed_remote_iff hexport hremote rfl rfl rfl fun hnote => ?_
    change (signals.spendValueSats > 0 || signals.containsPrivateNote) = true
    have hnote' : signals.containsPrivateNote = true := hnote
    rw [hnote', Bool.or_true]
  rw [analyze, IntelligenceBus.analyze, hselect]
  constructor
  · rintro ⟨provider, hhanded, hremote⟩
    cases hrisk : service.riskProvider with
    | none => rw [hrisk] at hhanded; cases hhanded
    | some found =>
        rw [hrisk] at hhanded
        dsimp only at hhanded
        split at hhanded
        · next hok =>
            cases hhanded
            obtain ⟨hsupports, henabled, hquiet⟩ := (hallowed provider hremote).mp hok
            obtain ⟨hspend, hnote⟩ := (risk_isSensitive_iff signals).mp hquiet
            exact ⟨hspend, hnote, henabled, provider, hrisk, hremote, hsupports⟩
        · cases hhanded
  · rintro ⟨hspend, hnote, henabled, provider, hrisk, hremote, hsupports⟩
    have hok := (hallowed provider hremote).mpr
      ⟨hsupports, henabled, (risk_isSensitive_iff signals).mpr ⟨hspend, hnote⟩⟩
    rw [hrisk]
    dsimp only
    rw [if_pos hok]
    exact ⟨provider, rfl, hremote⟩

/-- A wallet without keys. -/
def walletAt (address : Bytes) : HdWallet where
  address := address
  privkey := []
  addresses := []
  privkeys := []
  pubkeys := []
  pubkey := []
  addressFormat := .base58check
  hdScheme := .none
  masterSeed := []
  mnemonicEntropy := []
  nextHdIndex := 0
  labels := ∅

variable (ops lib order) in
/-- What a remote provider sees of a draft that is exposed. -/
theorem observe_exposed (hpolicy : service.bus.policy = service.config.policy)
    (hexport : service.config.policy.allowSensitiveWalletExport = false)
    (h : service.Exposed signals) :
    ∃ kind, ∀ s i, service.observe ops lib order s
        (.transactionRisk chain signals operatorPrompt systemContext, i)
      = some (kind, (service.buildRequest ops lib order [] s.wallet
          (.transactionRisk chain signals operatorPrompt systemContext)).anonymous) := by
  have hhanded : ∃ provider, (service.analyze ops lib order [] [] (walletAt [])
      (.transactionRisk chain signals operatorPrompt systemContext)).handedTo = some provider ∧
        provider.capabilities.remote = true := (handed_remote_iff hpolicy hexport _ _ _).mpr h
  obtain ⟨provider, hprovider, hremote⟩ := hhanded
  refine ⟨provider.capabilities.kind, fun s i => ?_⟩
  rw [observe, remoteRequest, handedTo_eq service _ [] _ [] _ (walletAt []), hprovider]
  dsimp only
  rw [if_pos hremote]
  rfl

/-- Nothing is seen of a draft that is not exposed. -/
theorem observe_hidden (hpolicy : service.bus.policy = service.config.policy)
    (hexport : service.config.policy.allowSensitiveWalletExport = false)
    (h : ¬ service.Exposed signals) (s : Surroundings) (i : Nat) :
    service.observe ops lib order s (.transactionRisk chain signals operatorPrompt systemContext, i)
      = none := by
  have hnone : service.remoteRequest ops lib order (s.now i) (s.id i) s.wallet
      (.transactionRisk chain signals operatorPrompt systemContext) = none := by
    rw [remoteRequest]
    split
    · next provider hhanded =>
        exact if_neg fun hremote =>
          h ((handed_remote_iff hpolicy hexport _ _ _).mp ⟨provider, hhanded, hremote⟩)
    · rfl
  rw [observe, hnone, Option.map_none]

/-- Two wallets are told apart by a draft if and only if it is exposed and
their snapshots differ. -/
theorem observe_risk_eq_iff (hpolicy : service.bus.policy = service.config.policy)
    (hexport : service.config.policy.allowSensitiveWalletExport = false) (s s' : Surroundings)
    (i : Nat) :
    service.observe ops lib order s (.transactionRisk chain signals operatorPrompt systemContext, i)
        = service.observe ops lib order s'
            (.transactionRisk chain signals operatorPrompt systemContext, i) ↔
      (service.Exposed signals → collectWallet lib order s.wallet chain signals
        = collectWallet lib order s'.wallet chain signals) := by
  by_cases h : service.Exposed signals
  · obtain ⟨kind, hseen⟩ := observe_exposed ops lib order hpolicy hexport h
    rw [hseen, hseen]
    constructor
    · intro heq _
      have hrequest := (Prod.mk.inj (Option.some.inj heq)).2
      exact Option.some.inj (congrArg (fun request => request.snapshots.wallet) hrequest)
    · intro hwallet
      have hbuild : (service.buildRequest ops lib order [] s.wallet
          (.transactionRisk chain signals operatorPrompt systemContext))
            = service.buildRequest ops lib order [] s'.wallet
              (.transactionRisk chain signals operatorPrompt systemContext) := by
        rw [buildRequest, buildRequest, draftRequest, draftRequest, hwallet h]
      rw [hbuild]
  · rw [observe_hidden hpolicy hexport h, observe_hidden hpolicy hexport h]
    exact ⟨fun _ hexposed => absurd hexposed h, fun _ => rfl⟩

/-! ## Runs -/

/-- The two wallets give the same snapshot in every draft that is exposed. -/
def AgreeWhenExposed (lib : KeyLib) (order : FinMap.VisitOrder OutPoint UTXOEntry)
    (service : IntelligenceService F) (w w' : HdWallet) (calls : List (AnalyzeCall F)) : Prop :=
  ∀ chain signals operatorPrompt systemContext,
    .transactionRisk chain signals operatorPrompt systemContext ∈ calls →
    service.Exposed signals →
    collectWallet lib order w chain signals = collectWallet lib order w' chain signals

/-- Other calls do not read the wallet. -/
theorem independent_of_not_risk {call : AnalyzeCall F} (i : Nat)
    (h : ∀ chain signals operatorPrompt systemContext,
      call ≠ .transactionRisk chain signals operatorPrompt systemContext) :
    Independent (service.observe ops lib order) (call, i) := by
  refine independent_of_build fun id id' wallet wallet' => ?_
  cases call with
  | transactionRisk chain signals operatorPrompt systemContext => exact absurd rfl (h _ _ _ _)
  | networkHealth _ _ _ _ _ | miningHealth _ _ _ _ _ | chainActivity _ _ _
  | communicationSafety _ _ _ _ | explainProtocol _ _ _ _ => rfl

/-- Two runs show remote providers the same if and only if the wallets agree
wherever they are exposed. -/
theorem remoteTrace_eq_iff (hpolicy : service.bus.policy = service.config.policy)
    (hexport : service.config.policy.allowSensitiveWalletExport = false) (s s' : Surroundings)
    (calls : List (AnalyzeCall F)) :
    service.remoteTrace ops lib order s calls = service.remoteTrace ops lib order s' calls ↔
      AgreeWhenExposed lib order service s.wallet s'.wallet calls := by
  rw [remoteTrace, remoteTrace, trace_eq_iff (announced_observe service)]
  constructor
  · intro hsame chain signals operatorPrompt systemContext hmem hexposed
    obtain ⟨i, hi⟩ := List.mem_iff_getElem?.mp hmem
    have hcall := hsame _ (List.mk_mem_zipIdx_iff_getElem?.mpr hi)
    exact (observe_risk_eq_iff hpolicy hexport s s' i).mp hcall hexposed
  · rintro hagree ⟨call, i⟩ hcall
    have hmem : call ∈ calls := List.fst_mem_of_mem_zipIdx hcall
    by_cases hrisk : ∃ chain signals operatorPrompt systemContext,
        call = .transactionRisk chain signals operatorPrompt systemContext
    · obtain ⟨chain, signals, operatorPrompt, systemContext, rfl⟩ := hrisk
      exact (observe_risk_eq_iff hpolicy hexport s s' i).mpr (hagree _ _ _ _ hmem)
    · refine independent_of_not_risk i (fun chain signals operatorPrompt systemContext heq => ?_) s s'
      exact hrisk ⟨_, _, _, _, heq⟩

theorem registerProvider_config (service : IntelligenceService F)
    (provider : Option (InferenceProvider F)) :
    (service.registerProvider provider).config = service.config := rfl

theorem registerProvider_policy (service : IntelligenceService F)
    (provider : Option (InferenceProvider F)) :
    (service.registerProvider provider).bus.policy = service.bus.policy := by
  rw [registerProvider]
  cases provider with
  | none => rfl
  | some provider =>
      rw [IntelligenceBus.registerProvider]
      split <;> rfl

/-- A service has the configuration that it was made with, whatever is
registered. -/
theorem withProviders_config (now : Bytes) (advise : ProviderRequest F → ProviderResponse F)
    (config : IntelligenceConfig) (providers : List (Option (InferenceProvider F))) :
    (withProviders now advise config providers).config = config ∧
      (withProviders now advise config providers).bus.policy = config.policy := by
  rw [withProviders]
  induction providers using List.reverseRecOn with
  | nil => exact ⟨rfl, rfl⟩
  | append_singleton providers provider ih =>
      rw [List.foldl_concat, registerProvider_config, registerProvider_policy]
      exact ih

/-- No wallet can be told from another by what remote providers see if and only
if no draft is exposed. -/
theorem wallet_stays_local_iff (ops : DoubleOps F) (lib : KeyLib)
    (order : FinMap.VisitOrder OutPoint UTXOEntry) (now : Bytes)
    (advise : ProviderRequest F → ProviderResponse F) (config : IntelligenceConfig)
    (hexport : config.policy.allowSensitiveWalletExport = false)
    (providers : List (Option (InferenceProvider F))) (calls : List (AnalyzeCall F)) :
    let service := withProviders now advise config providers
    (∀ s s' : Surroundings,
      service.remoteTrace ops lib order s calls = service.remoteTrace ops lib order s' calls) ↔
      ∀ chain signals operatorPrompt systemContext,
        .transactionRisk chain signals operatorPrompt systemContext ∈ calls →
        ¬ service.Exposed signals := by
  intro service
  obtain ⟨hconfig, hpolicy⟩ := withProviders_config now advise config providers
  have hsame : service.bus.policy = service.config.policy := hpolicy.trans (by rw [hconfig])
  have hlocal : service.config.policy.allowSensitiveWalletExport = false := by
    rw [hconfig]
    exact hexport
  constructor
  · intro hsecure chain signals operatorPrompt systemContext hmem hexposed
    -- A wallet that is loaded is told from one that is not.
    have hagree := (remoteTrace_eq_iff hsame hlocal ⟨walletAt [], fun _ => [], fun _ => []⟩
      ⟨walletAt [0], fun _ => [], fun _ => []⟩ calls).mp (hsecure _ _)
    have hloaded : decide (([] : Bytes) ≠ []) = decide (([0] : Bytes) ≠ []) :=
      congrArg WalletRiskSnapshot.walletLoaded (hagree _ _ _ _ hmem hexposed)
    exact absurd hloaded (by decide)
  · intro hhidden s s'
    exact (remoteTrace_eq_iff hsame hlocal s s' calls).mpr
      fun chain signals operatorPrompt systemContext hmem hexposed =>
        absurd hexposed (hhidden _ _ _ _ hmem)

/-! ## A draft of nothing -/

/-- A provider at another site that takes every kind of request. -/
def remoteProvider (kind : ProviderKind) : InferenceProvider Unit where
  capabilities := { kind := kind, displayName := chars "remote", remote := true }
  analyze _ := {}

def unitOps : DoubleOps Unit := ⟨(), fun _ _ => (), fun _ => false⟩

/-- Remote providers are enabled, and nothing sensitive may be exported. -/
def remotePolicy : IntelligencePolicy := { remoteProvidersEnabled := true }

/-- A chain of height 1 on which an address has 10000 satoshis. -/
def paidChain : Blockchain :=
  { Blockchain.initial .regtest DataDir.empty with
    bestHeight := 1
    utxo := (∅ : UTXOSet).insert ⟨9, 0⟩ ⟨⟨10000, Regtest.aliceCanonical⟩, 1, false⟩ }

/-- The arguments that `analyze_transaction_risk` has by default. -/
def emptyDraft : AnalyzeCall Unit := .transactionRisk paidChain {} [] []

/-- The wallet of the address. -/
def paidWallet : HdWallet :=
  { walletAt Regtest.aliceCanonical.toList with addresses := [Regtest.aliceCanonical.toList] }

def surroundings (wallet : HdWallet) : Surroundings := ⟨wallet, fun _ => [], fun _ => []⟩

/-- While the local rules are the default provider, the draft stays here. -/
theorem local_rules_keep_drafts :
    (withProviders [] (fun _ => {}) { policy := remotePolicy }
        [some (remoteProvider .gemini)]).remoteTrace unitOps sampleLib Chainstate.outpointOrder
        (surroundings paidWallet) [emptyDraft]
      = (withProviders [] (fun _ => {}) { policy := remotePolicy }
        [some (remoteProvider .gemini)]).remoteTrace unitOps sampleLib Chainstate.outpointOrder
        (surroundings (walletAt [])) [emptyDraft] := by
  refine (wallet_stays_local_iff unitOps sampleLib Chainstate.outpointOrder [] (fun _ => {})
    { policy := remotePolicy } rfl [some (remoteProvider .gemini)] [emptyDraft]).mpr ?_ _ _
  rintro chain signals operatorPrompt systemContext - ⟨-, -, -, provider, hprovider, hremote, -⟩
  have hrules : provider = rulesOnlyProvider fun _ => {} := (Option.some.inj hprovider).symm
  rw [hrules] at hremote
  cases hremote

/-- With a remote provider as the default, the balance goes out. -/
theorem not_wallet_stays_local : ¬ ∀ (F : Type) (ops : DoubleOps F) (lib : KeyLib)
    (order : FinMap.VisitOrder OutPoint UTXOEntry) (now : Bytes)
    (advise : ProviderRequest F → ProviderResponse F) (config : IntelligenceConfig),
    config.policy.allowSensitiveWalletExport = false →
    ∀ (providers : List (Option (InferenceProvider F))) (calls : List (AnalyzeCall F))
      (s s' : Surroundings),
      (withProviders now advise config providers).remoteTrace ops lib order s calls
        = (withProviders now advise config providers).remoteTrace ops lib order s' calls := by
  intro hall
  have h := hall Unit unitOps sampleLib Chainstate.outpointOrder [] (fun _ => {})
    { defaultProvider := .gemini, policy := remotePolicy } rfl [some (remoteProvider .gemini)]
    [emptyDraft] (surroundings paidWallet) (surroundings (walletAt [0]))
  have hbalances := congrArg (List.map fun seen =>
    seen.2.snapshots.wallet.map WalletRiskSnapshot.availableBalanceSats) h
  exact absurd hbalances (by decide)

end IntelligenceService

end Intelligence

end Cryptex
