import Cryptex.Network.VoiceWire
import Cryptex.Network.ChatDelivery

/-!
# Voice frames

How audio reaches `voice_audio_inbox_`: `make_encrypted_audio_frame` on the
sending side, `decrypt_audio_frame_inplace` and `handle_voice_frame` on the
receiving one.
-/

namespace Cryptex

open Encoding Chat

namespace Voice

/-- The Opus codec, the cloak and AES-GCM. `frameEncrypt` takes the plaintext,
the key, the associated data and the nonce and returns the ciphertext and the
tag; `frameDecrypt` takes the ciphertext, the key, the associated data, the
nonce and the tag. -/
structure VoiceLib extends ChatLib where
  opusEncode : Bytes → UInt32 → UInt16 → Option Bytes
  opusDecode : Bytes → UInt32 → UInt16 → UInt16 → Option Bytes
  applyVoiceCloak : Bytes → UInt16 → Bytes
  frameEncrypt : Bytes → Bytes → Bytes → Bytes → Bytes × Bytes
  frameDecrypt : Bytes → Bytes → Bytes → Bytes → Bytes → Option Bytes

/-- The arguments of `make_encrypted_audio_frame` and the nonce it draws. -/
structure FrameRequest where
  pcmBytes : Bytes
  sessionKey : Bytes
  callId : Bytes
  timestampMs : UInt64
  sequence : UInt64
  sampleRate : UInt32
  channels : UInt16
  bitsPerSample : UInt16
  frameDurationMs : UInt16
  obfuscateAudio : Bool
  iv : Bytes
  callId_size : callId.length < 2 ^ 64

def isSupportedOpusRate (sampleRate : UInt32) : Bool :=
  decide (sampleRate ∈ ([8000, 12000, 16000, 24000, 48000] : List UInt32))

section

variable (lib : VoiceLib)

/-- `encode_opus_frame`. -/
def encodeOpusFrame (pcmBytes : Bytes) (sampleRate : UInt32) (channels : UInt16) : Option Bytes :=
  if pcmBytes = [] then some []
  else if pcmBytes.length % (2 * channels.toNat) ≠ 0 then none
  else lib.opusEncode pcmBytes sampleRate channels

/-- `decode_opus_frame`. -/
def decodeOpusFrame (encoded : Bytes) (sampleRate : UInt32) (channels frameDurationMs : UInt16) :
    Option Bytes :=
  if encoded = [] then some [] else lib.opusDecode encoded sampleRate channels frameDurationMs

/-- The frame that is encrypted. -/
def requestedFrame (r : FrameRequest) (processed encoded : Bytes) : AudioFrame where
  version := 2
  timestamp := r.timestampMs
  sequence := r.sequence
  callId := r.callId
  sampleRate := r.sampleRate
  channels := r.channels
  bitsPerSample := r.bitsPerSample
  frameDurationMs := r.frameDurationMs
  codec := codecOpus
  encrypted := true
  obfuscated := r.obfuscateAudio
  iv := []
  authTag := []
  encodedAudio := encoded
  pcmBytes := processed

/-- `make_encrypted_audio_frame`; `none` is an exception. -/
def makeEncryptedAudioFrame (r : FrameRequest) : Option AudioFrame :=
  if isSupportedOpusRate r.sampleRate = false then none
  else if r.channels = 0 ∨ r.channels > 2 then none
  else if r.bitsPerSample ≠ 16 then none
  else
    let processed :=
      if r.obfuscateAudio then lib.applyVoiceCloak r.pcmBytes r.channels else r.pcmBytes
    (encodeOpusFrame lib processed r.sampleRate r.channels).map fun encoded =>
      let frame := requestedFrame r processed encoded
      let sealedAudio := lib.frameEncrypt encoded r.sessionKey (buildFrameAad frame) r.iv
      { frame with iv := r.iv, encodedAudio := sealedAudio.1, authTag := sealedAudio.2 }

/-- `decrypt_audio_frame_inplace`; `none` is a failure. -/
def decryptAudioFrame (frame : AudioFrame) (sessionKey : Bytes) : Option AudioFrame :=
  if frame.codec ≠ codecOpus then none
  else
    let encoded :=
      if frame.encrypted then
        lib.frameDecrypt frame.encodedAudio sessionKey (buildFrameAad frame) frame.iv frame.authTag
      else some frame.encodedAudio
    (encoded.bind fun encoded =>
      decodeOpusFrame lib encoded frame.sampleRate frame.channels frame.frameDurationMs).map
        fun pcm => { frame with pcmBytes := pcm }

/-- The frame as `handle_voice_frame` decodes it, unless it is dropped. -/
def decodedFrame (call : VoiceCallInfo) (frame : AudioFrame) : Option AudioFrame :=
  if call.active = false ∨ call.callId ≠ frame.callId ∨ call.sessionReady = false then none
  else if call.sessionKey.length ≠ 32 then none
  else decryptAudioFrame lib frame call.sessionKey

/-- The latency that a frame shows. -/
def sampleLatency (arrivalMs timestamp : UInt64) : UInt64 :=
  if timestamp > 0 ∧ arrivalMs ≥ timestamp ∧ arrivalMs - timestamp < 15000 then
    arrivalMs - timestamp
  else 0

/-- The call after a frame that was decoded. -/
def heardCall (arrivalMs now : UInt64) (decoded : AudioFrame) (call : VoiceCallInfo) :
    VoiceCallInfo :=
  let sample := sampleLatency arrivalMs decoded.timestamp
  let call := { call with lastAudioAt := now }
  if sample > 0 then
    let previous := call.latencyMs
    let delta := if previous > sample then previous - sample else sample - previous
    { call with
      latencyMs := if previous = 0 then sample else (previous * 7 + sample) / 8
      jitterMs := if call.jitterMs = 0 then delta else (call.jitterMs * 7 + delta) / 8 }
  else call

/-- `handle_voice_frame`, with the frame that it puts in the inbox. -/
def handleVoiceFrame (arrivalMs now : UInt64) (frame : AudioFrame) (s : VoiceState) :
    VoiceState × Option AudioFrame :=
  match decodedFrame lib s.call frame with
  | none => (s, none)
  | some decoded =>
      let kept := if s.inbox.length ≥ 64 then s.inbox.drop 1 else s.inbox
      (⟨heardCall arrivalMs now decoded s.call, kept ++ [decoded]⟩, some decoded)

/-! ## Arrivals -/

/-- A chat message other than a voice signal, with the clocks that the handler
of a frame reads. -/
structure FrameArrival extends ChatArrival where
  arrivalMs : UInt64
  heardAt : UInt64
  not_control : ∀ p, payload = some p → p.chatType ≠ chatTypeVoiceControl

structure VoiceNode where
  recentChatIds : FinMap Bytes Int
  voice : VoiceState

/-- The table after an arrival, and the frame that passes the CHAT handler. -/
def FrameArrival.passed (a : FrameArrival) (recent : FinMap Bytes Int) :
    FinMap Bytes Int × Option AudioFrame :=
  match a.accepted lib.toChatLib with
  | none => (recent, none)
  | some (p, parsed) =>
      let marked := ChatState.markChatSeen recent parsed.messageId a.now
      if marked.2 then (marked.1, none)
      else if p.chatType = chatTypeVoiceFrame then
        (marked.1, parseAudioFrameContent parsed.content)
      else (marked.1, none)

def VoiceNode.receive (n : VoiceNode) (a : FrameArrival) : VoiceNode × Option AudioFrame :=
  let passed := a.passed lib n.recentChatIds
  match passed.2 with
  | none => ({ n with recentChatIds := passed.1 }, none)
  | some frame =>
      let handled := handleVoiceFrame lib a.arrivalMs a.heardAt frame n.voice
      (⟨passed.1, handled.1⟩, handled.2)

/-- The frames that a run puts in the inbox, in order. -/
def VoiceNode.heard (n : VoiceNode) : List FrameArrival → List AudioFrame
  | [] => []
  | a :: arrivals => (n.receive lib a).2.toList ++ (n.receive lib a).1.heard arrivals

/-! ## Authentic frames -/

/-- The frame was made under the key, up to its tag and its local audio. -/
def MadeUnder (requests : Set FrameRequest) (key : Bytes) (frame : AudioFrame) : Prop :=
  ∃ r ∈ requests, r.sessionKey = key ∧
    ∃ made, makeEncryptedAudioFrame lib r = some made ∧ made.sealed = frame.sealed

/-- Decryption under the key succeeds only on what a request encrypted under it. -/
def GcmAuthentic (requests : Set FrameRequest) (key : Bytes) : Prop :=
  ∀ ciphertext aad iv tag plaintext,
    lib.frameDecrypt ciphertext key aad iv tag = some plaintext →
    ∃ r ∈ requests, r.sessionKey = key ∧
      ∃ made, makeEncryptedAudioFrame lib r = some made ∧ ciphertext = made.encodedAudio ∧
        aad = buildFrameAad made ∧ iv = made.iv

/-- Whether a frame that passes is encrypted and none of those heard before. -/
def FreshFrame (call : VoiceCallInfo) (before : List AudioFrame) (frame : AudioFrame) : Prop :=
  (decodedFrame lib call frame).isSome → frame.encrypted = true ∧ frame.sealed ∉ before

/-- The decodable frame that an arrival brings, sealed. -/
def brought (call : VoiceCallInfo) (passed : Option AudioFrame) : List AudioFrame :=
  (passed.filter fun frame => (decodedFrame lib call frame).isSome).toList.map AudioFrame.sealed

/-- Every frame of the run that passes the CHAT handler and can be decoded is
encrypted and comes once. -/
def FreshRun (call : VoiceCallInfo) :
    FinMap Bytes Int → List AudioFrame → List FrameArrival → Prop
  | _, _, [] => True
  | recent, before, a :: arrivals =>
      (∀ frame, (a.passed lib recent).2 = some frame → FreshFrame lib call before frame) ∧
        FreshRun call (a.passed lib recent).1
          (before ++ brought lib call (a.passed lib recent).2) arrivals

end

/-! ## One frame -/

variable {lib : VoiceLib} {requests : Set FrameRequest} {key : Bytes}

theorem decryptAudioFrame_sealed {frame decoded : AudioFrame} {sessionKey : Bytes}
    (h : decryptAudioFrame lib frame sessionKey = some decoded) : decoded.sealed = frame.sealed := by
  rw [decryptAudioFrame] at h
  split at h
  · cases h
  · obtain ⟨pcm, -, hdecoded⟩ := Option.map_eq_some_iff.mp h
    rw [← hdecoded]
    rfl

theorem decodedFrame_eq_some {call : VoiceCallInfo} {frame decoded : AudioFrame}
    (h : decodedFrame lib call frame = some decoded) :
    decryptAudioFrame lib frame call.sessionKey = some decoded := by
  rw [decodedFrame] at h
  split at h
  · cases h
  · split at h
    · cases h
    · exact h

/-- A made frame says that it is encrypted, and has the call id it was made for. -/
theorem makeEncryptedAudioFrame_fields {r : FrameRequest} {made : AudioFrame}
    (h : makeEncryptedAudioFrame lib r = some made) :
    made.encrypted = true ∧ made.callId = r.callId := by
  rw [makeEncryptedAudioFrame] at h
  split at h
  · cases h
  · split at h
    · cases h
    · split at h
      · cases h
      · obtain ⟨encoded, -, hmade⟩ := Option.map_eq_some_iff.mp h
        rw [← hmade]
        exact ⟨rfl, rfl⟩

theorem MadeUnder.encrypted {frame : AudioFrame} (h : MadeUnder lib requests key frame) :
    frame.encrypted = true := by
  obtain ⟨r, -, -, made, hmade, hsealed⟩ := h
  have hencrypted : made.sealed.encrypted = frame.sealed.encrypted :=
    congrArg AudioFrame.encrypted hsealed
  exact hencrypted.symm.trans (makeEncryptedAudioFrame_fields hmade).1

theorem MadeUnder.congr {frame frame' : AudioFrame} (h : MadeUnder lib requests key frame)
    (hsealed : frame.sealed = frame'.sealed) : MadeUnder lib requests key frame' := by
  obtain ⟨r, hr, hkey, made, hmade, heq⟩ := h
  exact ⟨r, hr, hkey, made, hmade, heq.trans hsealed⟩

/-- A frame with the encrypted flag that decrypts was made under the key. -/
theorem madeUnder_of_decrypt {frame decoded : AudioFrame} (hgcm : GcmAuthentic lib requests key)
    (hsize : frame.callId.length < 2 ^ 64) (hencrypted : frame.encrypted = true)
    (h : decryptAudioFrame lib frame key = some decoded) : MadeUnder lib requests key frame := by
  rw [decryptAudioFrame] at h
  split at h
  · cases h
  · obtain ⟨pcm, hpcm, -⟩ := Option.map_eq_some_iff.mp h
    obtain ⟨plaintext, hplaintext, -⟩ := Option.bind_eq_some_iff.mp hpcm
    obtain ⟨r, hr, hkey, made, hmade, haudio, haad, hiv⟩ := hgcm _ _ _ _ _ hplaintext
    have hmadeSize : made.callId.length < 2 ^ 64 := by
      rw [(makeEncryptedAudioFrame_fields hmade).2]
      exact r.callId_size
    exact ⟨r, hr, hkey, made, hmade,
      sealed_eq_of_aad hmadeSize hsize haad.symm hiv.symm haudio.symm⟩

theorem madeUnder_iff {call : VoiceCallInfo} {frame decoded : AudioFrame}
    (hgcm : GcmAuthentic lib requests call.sessionKey) (hsize : frame.callId.length < 2 ^ 64)
    (h : decodedFrame lib call frame = some decoded) :
    MadeUnder lib requests call.sessionKey decoded ↔ frame.encrypted = true := by
  have hdecrypt := decodedFrame_eq_some h
  have hsealed := decryptAudioFrame_sealed hdecrypt
  constructor
  · intro hmade
    exact (hmade.congr hsealed).encrypted
  · intro hencrypted
    exact (madeUnder_of_decrypt hgcm hsize hencrypted hdecrypt).congr hsealed.symm

/-! ## One arrival -/

/-- The fields of a call that decide which frames are decoded. -/
structure SameSession (call call' : VoiceCallInfo) : Prop where
  active : call'.active = call.active
  callId : call'.callId = call.callId
  sessionReady : call'.sessionReady = call.sessionReady
  sessionKey : call'.sessionKey = call.sessionKey

theorem SameSession.decodedFrame {call call' : VoiceCallInfo} (h : SameSession call call')
    (frame : AudioFrame) : decodedFrame lib call' frame = decodedFrame lib call frame := by
  rw [Voice.decodedFrame, Voice.decodedFrame, h.active, h.callId, h.sessionReady, h.sessionKey]

theorem sameSession_heardCall (arrivalMs now : UInt64) (decoded : AudioFrame)
    (call : VoiceCallInfo) : SameSession call (heardCall arrivalMs now decoded call) := by
  rw [heardCall]
  dsimp only
  split
  · exact ⟨rfl, rfl, rfl, rfl⟩
  · exact ⟨rfl, rfl, rfl, rfl⟩

theorem SameSession.trans {call call' call'' : VoiceCallInfo} (h : SameSession call call')
    (h' : SameSession call' call'') : SameSession call call'' :=
  ⟨h'.active.trans h.active, h'.callId.trans h.callId, h'.sessionReady.trans h.sessionReady,
    h'.sessionKey.trans h.sessionKey⟩

/-- What an arrival does: nothing is put, or the frame that passed is. -/
inductive ReceiveEffect (lib : VoiceLib) (n : VoiceNode) (a : FrameArrival) :
    VoiceNode × Option AudioFrame → Prop where
  | dropped (hnone : ∀ frame, (a.passed lib n.recentChatIds).2 = some frame →
        decodedFrame lib n.voice.call frame = none) :
      ReceiveEffect lib n a (⟨(a.passed lib n.recentChatIds).1, n.voice⟩, none)
  | put (frame decoded : AudioFrame) (hpassed : (a.passed lib n.recentChatIds).2 = some frame)
      (hdecoded : decodedFrame lib n.voice.call frame = some decoded) (voice : VoiceState)
      (hsame : SameSession n.voice.call voice.call) :
      ReceiveEffect lib n a (⟨(a.passed lib n.recentChatIds).1, voice⟩, some decoded)

theorem receiveEffect (n : VoiceNode) (a : FrameArrival) :
    ReceiveEffect lib n a (n.receive lib a) := by
  rw [VoiceNode.receive]
  dsimp only
  split
  · next hnone =>
      refine .dropped fun frame hframe => ?_
      rw [hnone] at hframe
      cases hframe
  · next frame hframe =>
      rw [handleVoiceFrame]
      cases hdecoded : decodedFrame lib n.voice.call frame with
      | none =>
          refine .dropped fun other hother => ?_
          rw [hframe] at hother
          rw [← Option.some.inj hother]
          exact hdecoded
      | some decoded =>
          exact .put frame decoded hframe hdecoded _ (sameSession_heardCall _ _ _ _)

theorem passed_size {a : FrameArrival} {recent : FinMap Bytes Int} {frame : AudioFrame}
    (h : (a.passed lib recent).2 = some frame) : frame.callId.length < 2 ^ 64 := by
  rw [FrameArrival.passed] at h
  split at h
  · cases h
  · dsimp only at h
    split at h
    · cases h
    · split at h
      · rw [parseAudioFrameContent] at h
        dsimp only at h
        split at h
        · cases h
        · exact callId_size h
      · cases h

theorem brought_of_decoded {call : VoiceCallInfo} {frame decoded : AudioFrame}
    (h : decodedFrame lib call frame = some decoded) :
    brought lib call (some frame) = [decoded.sealed] := by
  have hsome : (decodedFrame lib call frame).isSome = true := by rw [h, Option.isSome_some]
  rw [brought, Option.filter_some, if_pos hsome,
    decryptAudioFrame_sealed (decodedFrame_eq_some h)]
  rfl

theorem brought_of_dropped {call : VoiceCallInfo} {passed : Option AudioFrame}
    (h : ∀ frame, passed = some frame → decodedFrame lib call frame = none) :
    brought lib call passed = [] := by
  cases passed with
  | none => rfl
  | some frame =>
      rw [brought, Option.filter_some, h frame rfl]
      rfl

/-! ## The run -/

/-- The frames were all made under the key, and they are distinct from each
other and from those before. -/
def AuthenticOnce (lib : VoiceLib) (requests : Set FrameRequest) (key : Bytes)
    (before : List AudioFrame) (frames : List AudioFrame) : Prop :=
  (∀ frame ∈ frames, MadeUnder lib requests key frame) ∧
    (frames.map AudioFrame.sealed).Nodup ∧ ∀ frame ∈ frames, frame.sealed ∉ before

theorem authenticOnce_cons {before frames : List AudioFrame} {frame : AudioFrame} :
    AuthenticOnce lib requests key before (frame :: frames) ↔
      (MadeUnder lib requests key frame ∧ frame.sealed ∉ before) ∧
        AuthenticOnce lib requests key (before ++ [frame.sealed]) frames := by
  constructor
  · rintro ⟨hmade, hnodup, hnew⟩
    rw [List.map_cons, List.nodup_cons] at hnodup
    refine ⟨⟨hmade frame List.mem_cons_self, hnew frame List.mem_cons_self⟩,
      fun other hother => hmade other (List.mem_cons_of_mem _ hother), hnodup.2,
      fun other hother hmem => ?_⟩
    rcases List.mem_append.mp hmem with hbefore | hfirst
    · exact hnew other (List.mem_cons_of_mem _ hother) hbefore
    · rw [List.mem_singleton] at hfirst
      exact hnodup.1 (hfirst ▸ List.mem_map_of_mem hother)
  · rintro ⟨⟨hframe, hbefore⟩, hmade, hnodup, hnew⟩
    refine ⟨fun other hother => ?_, ?_, fun other hother => ?_⟩
    · rcases List.mem_cons.mp hother with rfl | hrest
      · exact hframe
      · exact hmade other hrest
    · rw [List.map_cons, List.nodup_cons]
      refine ⟨fun hmem => ?_, hnodup⟩
      obtain ⟨other, hother, hsealed⟩ := List.mem_map.mp hmem
      exact hnew other hother (hsealed ▸ List.mem_append_right _ (List.mem_singleton_self _))
    · rcases List.mem_cons.mp hother with rfl | hrest
      · exact hbefore
      · exact fun hmem => hnew other hrest (List.mem_append_left _ hmem)

theorem freshFrame_iff {call : VoiceCallInfo} {before : List AudioFrame} {frame decoded : AudioFrame}
    (hgcm : GcmAuthentic lib requests call.sessionKey) (hsize : frame.callId.length < 2 ^ 64)
    (h : decodedFrame lib call frame = some decoded) :
    FreshFrame lib call before frame ↔
      MadeUnder lib requests call.sessionKey decoded ∧ decoded.sealed ∉ before := by
  rw [madeUnder_iff hgcm hsize h, decryptAudioFrame_sealed (decodedFrame_eq_some h), FreshFrame, h]
  exact ⟨fun hfresh => hfresh rfl, fun hfresh _ => hfresh⟩

theorem heard_authenticOnce_iff {call : VoiceCallInfo}
    (hgcm : GcmAuthentic lib requests call.sessionKey) : ∀ (arrivals : List FrameArrival)
    (n : VoiceNode) (before : List AudioFrame), SameSession call n.voice.call →
      (AuthenticOnce lib requests call.sessionKey before (n.heard lib arrivals) ↔
        FreshRun lib call n.recentChatIds before arrivals)
  | [], n, before, _ => iff_of_true ⟨nofun, List.nodup_nil, nofun⟩ trivial
  | a :: arrivals, n, before, hsame => by
      rw [VoiceNode.heard, FreshRun]
      have heffect : ReceiveEffect lib n a (n.receive lib a) := receiveEffect n a
      revert heffect
      generalize n.receive lib a = received
      intro heffect
      cases heffect with
      | dropped hnone =>
          have hnone' : ∀ frame, (a.passed lib n.recentChatIds).2 = some frame →
              decodedFrame lib call frame = none := fun frame hframe =>
            (hsame.decodedFrame frame).symm.trans (hnone frame hframe)
          have hrest := heard_authenticOnce_iff hgcm arrivals
            ⟨(a.passed lib n.recentChatIds).1, n.voice⟩ before hsame
          rw [brought_of_dropped hnone', List.append_nil]
          refine hrest.trans ⟨fun h => ⟨fun frame hframe hsome => ?_, h⟩, fun h => h.2⟩
          rw [hnone' frame hframe] at hsome
          cases hsome
      | put frame decoded hpassed hdecoded voice hvoice =>
          rw [hsame.decodedFrame] at hdecoded
          have hrest := heard_authenticOnce_iff hgcm arrivals
            ⟨(a.passed lib n.recentChatIds).1, voice⟩ (before ++ [decoded.sealed])
            (hsame.trans hvoice)
          have hfresh : FreshFrame lib call before frame ↔ _ :=
            freshFrame_iff hgcm (passed_size hpassed) hdecoded
          rw [hpassed, brought_of_decoded hdecoded]
          refine authenticOnce_cons.trans (and_congr ?_ hrest)
          rw [← hfresh]
          exact ⟨fun h other hother => Option.some.inj hother ▸ h, fun h => h frame rfl⟩

/-- Every frame that is put in the inbox during a call was made under its key,
and none is put there twice, exactly if the run is fresh. -/
theorem voice_audio_authentic_iff (n : VoiceNode) (arrivals : List FrameArrival)
    (hgcm : GcmAuthentic lib requests n.voice.call.sessionKey) :
    ((∀ frame ∈ n.heard lib arrivals,
        MadeUnder lib requests n.voice.call.sessionKey frame) ∧
      ((n.heard lib arrivals).map AudioFrame.sealed).Nodup) ↔
      FreshRun lib n.voice.call n.recentChatIds [] arrivals := by
  have hiff := heard_authenticOnce_iff hgcm arrivals n [] ⟨rfl, rfl, rfl, rfl⟩
  rw [← hiff]
  exact ⟨fun h => ⟨h.1, h.2, fun _ _ => List.not_mem_nil⟩, fun h => ⟨h.1, h.2.1⟩⟩

/-! ### Samples -/

/-- The request that `sampleFrame` is made for. -/
def sampleRequest : FrameRequest where
  pcmBytes := [1, 2]
  sessionKey := List.replicate 32 7
  callId := [5]
  timestampMs := 1000
  sequence := 1
  sampleRate := 16000
  channels := 1
  bitsPerSample := 16
  frameDurationMs := 20
  obfuscateAudio := false
  iv := List.replicate 12 3
  callId_size := by decide

def sampleFrame : AudioFrame where
  version := 2
  timestamp := 1000
  sequence := 1
  callId := [5]
  sampleRate := 16000
  channels := 1
  bitsPerSample := 16
  frameDurationMs := 20
  codec := codecOpus
  encrypted := true
  obfuscated := false
  iv := List.replicate 12 3
  authTag := List.replicate 16 8
  encodedAudio := [9]
  pcmBytes := [1, 2]

/-- Opus keeps its input, and AES-GCM knows `sampleFrame` only. -/
def sampleFrameLib : VoiceLib where
  sha3_512 _ := 0
  verifySignature _ _ _ := false
  pubkeyToAddress pubkey := pubkey
  addressesEqual a b := decide (a = b)
  verifyBlob _ _ _ := true
  sharedSecret _ _ := none
  deriveChatKey _ _ := none
  rsaUnwrap _ _ := none
  aesGcmDecrypt _ _ _ _ _ := none
  deserializeContent body := some ⟨.voiceFrame, [], body⟩
  opusEncode pcm _ _ := some pcm
  opusDecode encoded _ _ _ := some encoded
  applyVoiceCloak pcm _ := pcm
  frameEncrypt _ _ _ _ := ([9], List.replicate 16 8)
  frameDecrypt ciphertext key aad iv _ :=
    if ciphertext = [9] ∧ key = sampleRequest.sessionKey ∧ aad = buildFrameAad sampleFrame ∧
        iv = sampleFrame.iv then some [1, 2]
    else none

/-- A frame in an envelope of the party `[2]`. -/
def framePayload (nonce : UInt64) (frame : AudioFrame) : ChatPayload where
  version := 4
  chatType := chatTypeVoiceFrame
  flags := chatFlagSigned
  kdfProfile := 0
  cipherProfile := 0
  timestamp := 1000000
  nonce := nonce
  sender := [2]
  senderPubkey := [2]
  channel := []
  recipient := [9]
  recipientPubkey := []
  wrappedKey := []
  body := serializeAudioFrame frame
  iv := []
  authTag := []
  signature := [4]

def frameArrival (frame : AudioFrame) : FrameArrival where
  checkedAt := 1000000
  now := 1000000
  wallet := none
  payload := some (framePayload 7 frame)
  faults := ⟨false, false⟩
  arrivalMs := 1000
  heardAt := 1000000
  not_control p h := by
    rw [← Option.some.inj h]
    exact show chatTypeVoiceFrame ≠ chatTypeVoiceControl by decide

def sampleVoiceNode : VoiceNode where
  recentChatIds := ∅
  voice :=
    ⟨{ active := true, connected := true, sessionReady := true, callId := [5]
       sessionKey := List.replicate 32 7 }, []⟩

/-- Anyone can put a frame with the encrypted flag cleared in the inbox. -/
theorem not_voice_audio_authentic : ¬ ∀ (lib : VoiceLib) (requests : Set FrameRequest)
    (n : VoiceNode) (arrivals : List FrameArrival),
    GcmAuthentic lib requests n.voice.call.sessionKey →
      (∀ frame ∈ n.heard lib arrivals,
          MadeUnder lib requests n.voice.call.sessionKey frame) ∧
        ((n.heard lib arrivals).map AudioFrame.sealed).Nodup := by
  intro hall
  have hgcm : GcmAuthentic { sampleFrameLib with frameDecrypt := fun _ _ _ _ _ => none } ∅
      sampleVoiceNode.voice.call.sessionKey := fun _ _ _ _ _ h => by cases h
  obtain ⟨hmade, -⟩ := hall _ ∅ sampleVoiceNode
    [frameArrival { sampleFrame with encrypted := false }] hgcm
  have hheard : sampleVoiceNode.heard
      { sampleFrameLib with frameDecrypt := fun _ _ _ _ _ => none }
      [frameArrival { sampleFrame with encrypted := false }]
        = [{ sampleFrame with encrypted := false, pcmBytes := [9] }] := by decide
  rw [hheard] at hmade
  obtain ⟨r, hr, -⟩ := hmade _ (List.mem_singleton_self _)
  exact hr

/-- A made frame that comes twice in one envelope is put in the inbox once. -/
theorem voice_audio_authentic_sample :
    (∀ frame ∈ sampleVoiceNode.heard sampleFrameLib [frameArrival sampleFrame, frameArrival sampleFrame],
        MadeUnder sampleFrameLib {sampleRequest} sampleVoiceNode.voice.call.sessionKey frame) ∧
      ((sampleVoiceNode.heard sampleFrameLib
        [frameArrival sampleFrame, frameArrival sampleFrame]).map AudioFrame.sealed).Nodup := by
  have hgcm : GcmAuthentic sampleFrameLib {sampleRequest}
      sampleVoiceNode.voice.call.sessionKey := by
    intro ciphertext aad iv tag plaintext h
    obtain ⟨hciphertext, -, haad, hiv⟩ := (Option.ite_none_right_eq_some.mp h).1
    exact ⟨sampleRequest, rfl, rfl, sampleFrame, by decide, hciphertext, haad, hiv⟩
  have hfirst : ((frameArrival sampleFrame).passed sampleFrameLib ∅).2
      = some { sampleFrame with pcmBytes := [] } := by decide
  have hsecond : ((frameArrival sampleFrame).passed sampleFrameLib
      ((frameArrival sampleFrame).passed sampleFrameLib ∅).1).2 = none := by decide +kernel
  refine (voice_audio_authentic_iff sampleVoiceNode _ hgcm).mpr ⟨?_, ?_, trivial⟩
  · intro frame hframe _
    rw [← Option.some.inj (hfirst.symm.trans hframe)]
    exact ⟨rfl, List.not_mem_nil⟩
  · intro frame hframe
    cases hsecond.symm.trans hframe

end Voice

end Cryptex
