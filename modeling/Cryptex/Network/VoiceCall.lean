import Cryptex.Network.ChatPayload

/-!
# Voice calls

The state of a voice call in `network.cpp`: the four local operations and
`handle_voice_signal`. What is sent to the other party is returned.
-/

namespace Cryptex

open Encoding Chat

namespace Voice

/-! ## Data -/

inductive SignalType where
  | offer
  | answer
  | decline
  | hangup
  | other
deriving DecidableEq

def capabilityAesGcm : UInt32 := 1

def capabilityOpus : UInt32 := 2

def capabilityAudioCloak : UInt32 := 4

def capabilityLiveWaveform : UInt32 := 8

def allCapabilities : UInt32 :=
  capabilityAesGcm ||| capabilityOpus ||| capabilityAudioCloak ||| capabilityLiveWaveform

def codecOpusName : Bytes := chars "opus"

structure CallSignal where
  version : UInt8 := 2
  type : SignalType
  timestamp : UInt64
  callId : Bytes
  callerAddress : Bytes
  calleeAddress : Bytes
  peerLabel : Bytes
  callerPubkeyB64 : Bytes := []
  callerRsaPublicPem : Bytes := []
  encryptionMode : UInt8 := 0
  obfuscateAudio : Bool := false
  sampleRate : UInt32 := 16000
  channels : UInt16 := 1
  bitsPerSample : UInt16 := 16
  frameDurationMs : UInt16 := 20
  capabilityFlags : UInt32 := allCapabilities
  codec : Bytes := codecOpusName
  note : Bytes := []
deriving DecidableEq

structure AudioFrame where
  version : UInt8
  timestamp : UInt64
  sequence : UInt64
  callId : Bytes
  sampleRate : UInt32
  channels : UInt16
  bitsPerSample : UInt16
  frameDurationMs : UInt16
  codec : UInt8
  encrypted : Bool
  obfuscated : Bool
  iv : Bytes
  authTag : Bytes
  encodedAudio : Bytes
  pcmBytes : Bytes
deriving DecidableEq

structure VoiceCallInfo where
  active : Bool := false
  incoming : Bool := false
  outgoing : Bool := false
  ringing : Bool := false
  connected : Bool := false
  sessionReady : Bool := false
  obfuscateAudio : Bool := false
  startedAt : UInt64 := 0
  connectedAt : UInt64 := 0
  lastSignalAt : UInt64 := 0
  lastAudioAt : UInt64 := 0
  nextOutgoingSequence : UInt64 := 1
  latencyMs : UInt64 := 0
  jitterMs : UInt64 := 0
  sampleRate : UInt32 := 16000
  channels : UInt16 := 1
  bitsPerSample : UInt16 := 16
  frameDurationMs : UInt16 := 20
  capabilityFlags : UInt32 := allCapabilities
  status : Bytes := []
  callId : Bytes := []
  localAddress : Bytes := []
  remoteAddress : Bytes := []
  callerAddress : Bytes := []
  calleeAddress : Bytes := []
  remotePubkeyB64 : Bytes := []
  remoteRsaPublicPem : Bytes := []
  peerLabel : Bytes := []
  encryptionMode : Bytes := []
  codec : Bytes := codecOpusName
  sessionKey : Bytes := []
deriving DecidableEq

/-- `voice_call_` and `voice_audio_inbox_`. -/
structure VoiceState where
  call : VoiceCallInfo
  inbox : List AudioFrame

/-- `clear_voice_call_locked`. -/
def cleared (status : Bytes) : VoiceState := ⟨{ status := status }, []⟩

def idle : VoiceState := ⟨{}, []⟩

/-- What an operation did to the call. -/
inductive CallOutcome where
  | ignored
  | cleared
  | offered
  | answered
  | started
  | accepted
deriving DecidableEq

structure VoiceStep where
  state : VoiceState
  outcome : CallOutcome
  sent : Option CallSignal := none

/-! ## Keys -/

section

variable (lib : ChatLib)

/-- `resolve_voice_sender_index`; `none` is an exception. -/
def resolveVoiceSenderIndex (w : Wallet) (address : Bytes) : Option Nat :=
  if address ≠ [] then walletIndexForAddress lib w address
  else if w.addresses = [] ∨ w.privkeys = [] ∨ w.pubkeys = [] then none
  else some 0

/-- What the session key is the digest of, after the shared secret. -/
def sessionMaterial (callId localAddress remoteAddress : Bytes) : Bytes :=
  let swapped := List.lex remoteAddress localAddress (fun a b => decide (a < b))
  let left := if swapped then remoteAddress else localAddress
  let right := if swapped then localAddress else remoteAddress
  chars "CryptexVoiceSessionV2" ++ left ++ chars "|" ++ right ++ chars "|" ++ callId

/-- `derive_session_key`; `none` is an exception. -/
def deriveSessionKey (privkey pubkey callId localAddress remoteAddress : Bytes) : Option Bytes :=
  (lib.sharedSecret privkey pubkey).map fun secret =>
    (lib.sha3_512 (secret ++ sessionMaterial callId localAddress remoteAddress)).first.toBytes

/-! ## Signals -/

/-- The key of the sender: of the payload, or else the one the signal names.
`none` is an exception. -/
def remotePubkey (signal : CallSignal) (payload : ChatPayload) : Option Bytes :=
  if payload.senderPubkey ≠ [] then some payload.senderPubkey
  else if signal.callerPubkeyB64 = [] then some []
  else base64Decode signal.callerPubkeyB64

/-- The address that an offer names for its caller. -/
def offerRemoteAddress (signal : CallSignal) (parsed : ParsedMessage) : Bytes :=
  if signal.callerAddress = [] then parsed.senderAddress else signal.callerAddress

/-- The address that an offer names for the callee. -/
def offerLocalAddress (signal : CallSignal) (parsed : ParsedMessage) : Bytes :=
  if signal.calleeAddress = [] then parsed.recipientAddress else signal.calleeAddress

/-- The session key of an offer, or the status with which it is given up. -/
def offerSessionKey (wallet : Option ChatWallet) (signal : CallSignal) (parsed : ParsedMessage)
    (pubkey : Bytes) : Except Bytes Bytes :=
  match wallet with
  | none => .error (chars "key-agreement-failed")
  | some w =>
      if pubkey = [] then .error (chars "key-agreement-failed")
      else
        match walletIndexForAddress lib w.toWallet (offerLocalAddress signal parsed) with
        | none => .error (chars "local-address-unavailable")
        | some index =>
            match deriveSessionKey lib (w.privkeys.getD index []) pubkey signal.callId
                (offerLocalAddress signal parsed) (offerRemoteAddress signal parsed) with
            | none => .error (chars "key-agreement-failed")
            | some key => .ok key

/-- The call that an offer creates. -/
def offeredCall (now : UInt64) (signal : CallSignal) (parsed : ParsedMessage) (pubkey key : Bytes)
    (peerLabel : Option Bytes) : VoiceCallInfo :=
  { active := true
    incoming := true
    outgoing := false
    ringing := true
    connected := false
    sessionReady := true
    status := chars "incoming"
    startedAt := signal.timestamp
    lastSignalAt := now
    callId := signal.callId
    localAddress := offerLocalAddress signal parsed
    remoteAddress := offerRemoteAddress signal parsed
    callerAddress := offerRemoteAddress signal parsed
    calleeAddress :=
      if signal.calleeAddress = [] then offerLocalAddress signal parsed else signal.calleeAddress
    remotePubkeyB64 := base64Encode pubkey
    remoteRsaPublicPem := signal.callerRsaPublicPem
    peerLabel := peerLabel.getD signal.peerLabel
    encryptionMode := chars "ECDH / AES-GCM / Opus"
    obfuscateAudio := signal.obfuscateAudio
    sampleRate := signal.sampleRate
    channels := signal.channels
    bitsPerSample := signal.bitsPerSample
    frameDurationMs := if signal.frameDurationMs = 0 then 20 else signal.frameDurationMs
    capabilityFlags :=
      if signal.capabilityFlags = 0 then capabilityAesGcm ||| capabilityOpus
      else signal.capabilityFlags
    codec := if signal.codec = [] then codecOpusName else signal.codec
    sessionKey := key }

/-- The key agreement of an answer, when the call has no session key yet:
`none` clears the call. -/
def answerSession (wallet : Option ChatWallet) (call : VoiceCallInfo) : Option VoiceCallInfo :=
  if call.sessionReady ∨ call.remotePubkeyB64 = [] then some call
  else
    match wallet with
    | none => some call
    | some w =>
        match walletIndexForAddress lib w.toWallet call.localAddress with
        | none => some call
        | some index =>
            match (base64Decode call.remotePubkeyB64).bind fun pubkey =>
                deriveSessionKey lib (w.privkeys.getD index []) pubkey call.callId call.localAddress
                  call.remoteAddress with
            | none => none
            | some key => some { call with sessionKey := key, sessionReady := true }

/-- The end of an answer. -/
def answeredCall (now : UInt64) (signal : CallSignal) (peerLabel : Option Bytes)
    (call : VoiceCallInfo) : VoiceCallInfo :=
  { call with
    incoming := false
    ringing := false
    connected := true
    status := chars "connected"
    connectedAt := now
    lastSignalAt := now
    peerLabel := peerLabel.getD call.peerLabel
    frameDurationMs :=
      if signal.frameDurationMs = 0 then call.frameDurationMs else signal.frameDurationMs
    capabilityFlags :=
      if signal.capabilityFlags ≠ 0 then signal.capabilityFlags else call.capabilityFlags
    codec := if signal.codec ≠ [] then signal.codec else call.codec }

/-- `handle_voice_signal`. -/
def handleVoiceSignal (now : UInt64) (wallet : Option ChatWallet) (signal : CallSignal)
    (parsed : ParsedMessage) (payload : ChatPayload) (peerLabel : Option Bytes) (s : VoiceState) :
    VoiceStep :=
  match remotePubkey signal payload with
  | none => ⟨s, .ignored, none⟩
  | some pubkey =>
      match signal.type with
      | .offer =>
          if s.call.active ∧ s.call.callId ≠ signal.callId then ⟨s, .ignored, none⟩
          else
            match offerSessionKey lib wallet signal parsed pubkey with
            | .error status => ⟨cleared status, .cleared, none⟩
            | .ok key => ⟨⟨offeredCall now signal parsed pubkey key peerLabel, []⟩, .offered, none⟩
      | .answer =>
          if s.call.active = false ∨ s.call.callId ≠ signal.callId then ⟨s, .ignored, none⟩
          else
            let call :=
              if pubkey ≠ [] then { s.call with remotePubkeyB64 := base64Encode pubkey } else s.call
            match answerSession lib wallet call with
            | none => ⟨cleared (chars "key-agreement-failed"), .cleared, none⟩
            | some call => ⟨⟨answeredCall now signal peerLabel call, s.inbox⟩, .answered, none⟩
      | .decline =>
          if s.call.active = false ∨ s.call.callId ≠ signal.callId then ⟨s, .ignored, none⟩
          else ⟨cleared (chars "declined"), .cleared, none⟩
      | .hangup =>
          if s.call.active = false ∨ s.call.callId ≠ signal.callId then ⟨s, .ignored, none⟩
          else ⟨cleared (chars "ended"), .cleared, none⟩
      | .other => ⟨s, .ignored, none⟩

/-! ## Local operations -/

/-- The arguments of `start_voice_call` that it uses, the id it draws, and the
number of peers that the offer is sent to; `none` is an exception. -/
structure StartRequest where
  recipientAddress : Bytes
  recipientPubkey : Bytes
  peerLabel : Bytes
  fromAddress : Bytes
  obfuscateAudio : Bool
  callId : Bytes
  dispatched : Option Nat

/-- The call that `start_voice_call` sets up, without its session key. -/
def startedCall (now : UInt64) (localAddress : Bytes) (r : StartRequest) : VoiceCallInfo :=
  { active := true
    outgoing := true
    ringing := true
    connected := false
    sessionReady := false
    obfuscateAudio := r.obfuscateAudio
    startedAt := now
    lastSignalAt := now
    callId := r.callId
    localAddress := localAddress
    remoteAddress := r.recipientAddress
    callerAddress := localAddress
    calleeAddress := r.recipientAddress
    remotePubkeyB64 := base64Encode r.recipientPubkey
    peerLabel := r.peerLabel
    encryptionMode := chars "ECDH / AES-GCM / Opus"
    frameDurationMs := 20
    capabilityFlags := allCapabilities
    codec := codecOpusName
    status := chars "calling" }

/-- A signal about a call. -/
def signalFor (type : SignalType) (timestamp : UInt64) (call : VoiceCallInfo) (note : Bytes) :
    CallSignal :=
  { type := type
    timestamp := timestamp
    callId := call.callId
    callerAddress := call.callerAddress
    calleeAddress := call.calleeAddress
    peerLabel := call.peerLabel
    capabilityFlags := call.capabilityFlags
    codec := call.codec
    note := note }

/-- The fields of an offer or an answer that describe the audio. -/
def withAudio (call : VoiceCallInfo) (pubkey : Bytes) (signal : CallSignal) : CallSignal :=
  { signal with
    callerPubkeyB64 := base64Encode pubkey
    obfuscateAudio := call.obfuscateAudio
    sampleRate := call.sampleRate
    channels := call.channels
    bitsPerSample := call.bitsPerSample
    frameDurationMs := call.frameDurationMs }

/-- `start_voice_call`. -/
def startVoiceCall (now : UInt64) (wallet : Option ChatWallet) (r : StartRequest) (s : VoiceState) :
    VoiceStep :=
  match wallet with
  | none => ⟨s, .ignored, none⟩
  | some w =>
      if r.recipientAddress = [] ∨ r.recipientPubkey = [] ∨ s.call.active then ⟨s, .ignored, none⟩
      else
        match resolveVoiceSenderIndex lib w.toWallet r.fromAddress with
        | none => ⟨s, .ignored, none⟩
        | some index =>
            let localAddress := w.addresses.getD index []
            match deriveSessionKey lib (w.privkeys.getD index []) r.recipientPubkey r.callId
                localAddress r.recipientAddress with
            | none => ⟨cleared (chars "key-agreement-failed"), .cleared, none⟩
            | some key =>
                let call :=
                  { startedCall now localAddress r with sessionKey := key, sessionReady := true }
                let offer : CallSignal :=
                  { withAudio call (w.pubkeys.getD index []) (signalFor .offer now call []) with
                    callerRsaPublicPem := w.chatRsaPublicKeyPem }
                match r.dispatched with
                | none => ⟨⟨call, s.inbox⟩, .started, none⟩
                | some 0 => ⟨cleared (chars "no-route"), .cleared, none⟩
                | some _ => ⟨⟨call, s.inbox⟩, .started, some offer⟩

/-- `accept_voice_call`. -/
def acceptVoiceCall (now : UInt64) (wallet : Option ChatWallet) (s : VoiceState) : VoiceStep :=
  match wallet with
  | none => ⟨s, .ignored, none⟩
  | some w =>
      if ¬ (s.call.active ∧ s.call.incoming ∧ s.call.ringing) then ⟨s, .ignored, none⟩
      else if ¬ s.call.sessionReady then
        ⟨{ s with call := { s.call with status := chars "key-agreement-failed" } }, .ignored, none⟩
      else
        match resolveVoiceSenderIndex lib w.toWallet s.call.localAddress with
        | none =>
            ⟨{ s with call := { s.call with status := chars "local-address-unavailable" } },
              .ignored, none⟩
        | some index =>
            let call :=
              { s.call with
                connected := true
                ringing := false
                status := chars "connected"
                connectedAt := now
                lastSignalAt := now }
            let answer :=
              if call.remotePubkeyB64 = [] then none
              else (base64Decode call.remotePubkeyB64).map fun _ =>
                withAudio call (w.pubkeys.getD index []) (signalFor .answer now call [])
            ⟨{ s with call := call }, .accepted, answer⟩

/-- `decline_voice_call` and `end_voice_call`. -/
def leaveVoiceCall (type : SignalType) (status : Bytes) (now : UInt64) (wallet : Option ChatWallet)
    (note : Bytes) (s : VoiceState) : VoiceStep :=
  match wallet with
  | none => ⟨s, .ignored, none⟩
  | some _ =>
      if s.call.active = false then ⟨s, .ignored, none⟩
      else
        let signal :=
          if s.call.remoteAddress = [] ∨ s.call.remotePubkeyB64 = [] then none
          else (base64Decode s.call.remotePubkeyB64).map fun _ => signalFor type now s.call note
        ⟨cleared status, .cleared, signal⟩

def declineVoiceCall (now : UInt64) (wallet : Option ChatWallet) (note : Bytes) (s : VoiceState) :
    VoiceStep :=
  leaveVoiceCall .decline (chars "declined") now wallet note s

def endVoiceCall (now : UInt64) (wallet : Option ChatWallet) (note : Bytes) (s : VoiceState) :
    VoiceStep :=
  leaveVoiceCall .hangup (chars "ended") now wallet note s

end

end Voice

end Cryptex
