import Cryptex.Encoding.Address
import Cryptex.Intelligence.Types

/-!
# The policy and the bus

Which provider a request goes to, and whether the policy lets it go there.
-/

namespace Cryptex

open Encoding

namespace Intelligence

/-- The fields of the policy that decide where a request may go. -/
structure IntelligencePolicy where
  remoteProvidersEnabled : Bool := false
  allowPublicWebGrounding : Bool := false
  allowRemoteStorage : Bool := false
  allowSensitiveWalletExport : Bool := false
  allowSensitiveMessageExport : Bool := false
deriving DecidableEq

structure DispatchDecision where
  allowed : Bool
  provider : ProviderKind
  remotePath : Bool
  reason : Bytes
deriving DecidableEq

def blocked (provider : ProviderKind) (remotePath : Bool) (reason : String) : DispatchDecision :=
  ⟨false, provider, remotePath, chars reason⟩

variable {F : Type}

/-- `evaluate_dispatch`. -/
def evaluateDispatch (policy : IntelligencePolicy) (capabilities : ProviderCapabilities)
    (request : ProviderRequest F) : DispatchDecision :=
  if request.kind = .unknown then
    blocked capabilities.kind capabilities.remote "unknown advisory kind"
  else if !capabilities.supports request.kind then
    blocked capabilities.kind capabilities.remote
      "provider does not support requested advisory kind"
  else if !capabilities.remote then
    ⟨true, capabilities.kind, false, chars "local provider allowed"⟩
  else if !policy.remoteProvidersEnabled then
    blocked capabilities.kind true "remote providers are disabled by policy"
  else if request.allowPublicWebGrounding && !policy.allowPublicWebGrounding then
    blocked capabilities.kind true "public web grounding is disabled by policy"
  else if request.allowRemoteStorage && !policy.allowRemoteStorage then
    blocked capabilities.kind true "remote storage is disabled by policy"
  else if request.containsSensitiveWalletData && !policy.allowSensitiveWalletExport then
    blocked capabilities.kind true
      "sensitive wallet data cannot be exported to a remote provider"
  else if request.containsSensitiveMessageContent && !policy.allowSensitiveMessageExport then
    blocked capabilities.kind true
      "sensitive message content cannot be exported to a remote provider"
  else ⟨true, capabilities.kind, true, chars "remote provider allowed"⟩

/-! ## The bus -/

/-- `std::map` keeps the providers in the order of their kinds. -/
structure IntelligenceBus (F : Type) where
  policy : IntelligencePolicy
  providers : ProviderKind → Option (InferenceProvider F)
  fallback : InferenceProvider F

/-- The kinds in the order of their values. -/
def ProviderKind.all : List ProviderKind := [.none, .rulesOnly, .gemini, .groq]

namespace AdvisoryResult

/-- `now` is `iso8601_utc_now`. -/
def rejected (now : Bytes) (kind : AdvisoryKind) (diagnostic : Bytes) : AdvisoryResult F where
  kind := kind
  generatedAt := now
  summary := chars "analysis blocked by policy"
  valid := false
  diagnostic := diagnostic

def unavailable (now : Bytes) (kind : AdvisoryKind) (diagnostic : Bytes) : AdvisoryResult F where
  kind := kind
  generatedAt := now
  summary := chars "analysis provider unavailable"
  valid := false
  diagnostic := diagnostic

end AdvisoryResult

/-- `NullInferenceProvider`. -/
def nullInferenceProvider (now : Bytes) : InferenceProvider F where
  capabilities := { displayName := chars "null", supportsStructuredOutput := true }
  analyze request :=
    { accepted := true
      diagnostic := chars "no inference provider configured"
      advisory := some (.unavailable now request.kind (chars "no inference provider configured")) }

namespace IntelligenceBus

def new (now : Bytes) (policy : IntelligencePolicy) : IntelligenceBus F :=
  ⟨policy, fun _ => none, nullInferenceProvider now⟩

def registerProvider (bus : IntelligenceBus F) : Option (InferenceProvider F) → IntelligenceBus F
  | none => bus
  | some provider =>
      if provider.capabilities.kind = .none then { bus with fallback := provider }
      else
        { bus with
          providers := Function.update bus.providers provider.capabilities.kind (some provider) }

/-- The first registered provider of the kind of location that supports the
request. -/
def firstSupporting (bus : IntelligenceBus F) (isRemote : Bool) (kind : AdvisoryKind) :
    Option (InferenceProvider F) :=
  (ProviderKind.all.filterMap bus.providers).find? fun provider =>
    provider.capabilities.supports kind && provider.capabilities.remote == isRemote

def selectProvider (bus : IntelligenceBus F) (request : ProviderRequest F) :
    Option (InferenceProvider F) :=
  match request.preferredProvider with
  | some kind => bus.providers kind
  | none =>
      let bestLocal := bus.firstSupporting false request.kind
      let bestRemote := bus.firstSupporting true request.kind
      if request.requiresRemoteProvider then bestRemote else bestLocal <|> bestRemote

/-- What `analyze` returns, and the provider that it hands the request to. -/
structure Analysis (F : Type) where
  result : AdvisoryResult F
  handedTo : Option (InferenceProvider F)

/-- What `analyze` makes of the response. -/
def adviseFrom (now : Bytes) (provider : InferenceProvider F) (request : ProviderRequest F) :
    AdvisoryResult F :=
  let response := provider.analyze request
  match response.accepted, response.advisory with
  | true, some advisory =>
      { advisory with
        provider := response.provider
        remoteGenerated := provider.capabilities.remote
        generatedAt := if advisory.generatedAt = [] then now else advisory.generatedAt }
  | _, _ =>
      .unavailable now request.kind
        (if response.diagnostic = [] then chars "provider returned no advisory payload"
         else response.diagnostic)

def analyze (bus : IntelligenceBus F) (now : Bytes) (request : ProviderRequest F) : Analysis F :=
  match bus.selectProvider request with
  | none =>
      let diagnostic :=
        if request.preferredProvider.isSome then chars "preferred provider is not registered"
        else chars "no provider registered for requested advisory kind"
      ⟨.unavailable now request.kind diagnostic, none⟩
  | some provider =>
      let decision := evaluateDispatch bus.policy provider.capabilities request
      if decision.allowed then ⟨adviseFrom now provider request, some provider⟩
      else ⟨.rejected now request.kind decision.reason, none⟩

end IntelligenceBus

end Intelligence

end Cryptex
