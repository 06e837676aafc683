import Cryptex.Network.VoiceCall

/-!
# Voice signals and frames on the wire

`serialize_signal`, `serialize_audio_frame` and their readers in
`voice_call.cpp`. What was written by version 2 is read back, and the
associated data of a frame determines every field that it covers.
-/

namespace Cryptex

open Codec Encoding Chat

namespace Voice

/-! ## Fields -/

def writeU16 (value : UInt16) : Bytes := writeInt 2 value.toNat

def writeFlag (flag : Bool) : Bytes := [if flag then 1 else 0]

def readU8 : Decoder UInt8 UInt8
  | [] => none
  | b :: rest => some (b, rest)

def readU16 : Decoder UInt16 UInt8 := fun data =>
  (readInt 2 data).map fun p => (UInt16.ofNat p.1, p.2)

def readU64 : Decoder UInt64 UInt8 := fun data =>
  (readInt 8 data).map fun p => (UInt64.ofNat p.1, p.2)

def readFlag : Decoder Bool UInt8 := fun data => (readU8 data).map fun p => (p.1 ≠ 0, p.2)

/-- `read_bytes`. -/
def readString : Decoder Bytes UInt8 := fun data =>
  (readBytes data).map fun p => (p.1.toList, p.2)

theorem bind_of_eq {α β : Type} {read : Option α} {a : α} (h : read = some a) (f : α → Option β) :
    (read >>= f) = f a := by
  rw [h]
  rfl

theorem readU8_cons (b : UInt8) (rest : Bytes) : readU8 (b :: rest) = some (b, rest) := rfl

theorem readU16_write (value : UInt16) (rest : Bytes) :
    readU16 (writeU16 value ++ rest) = some (value, rest) := by
  have hlt : value.toNat < 256 ^ 2 := value.toNat_lt
  rw [readU16, writeU16, readInt_writeInt rest hlt, Option.map_some, UInt16.ofNat_toNat]

theorem readU64_write (value : UInt64) (rest : Bytes) :
    readU64 (writeU64 value ++ rest) = some (value, rest) := by
  have hlt : value.toNat < 256 ^ 8 := value.toNat_lt
  rw [readU64, writeU64, readInt_writeInt rest hlt, Option.map_some, UInt64.ofNat_toNat]

theorem readFlag_write (flag : Bool) (rest : Bytes) :
    readFlag (writeFlag flag ++ rest) = some (flag, rest) := by
  cases flag <;> rfl

theorem readString_write {b : Bytes} (hsize : b.length < 2 ^ 64) (rest : Bytes) :
    readString (writeBytes b ++ rest) = some (b, rest) := by
  have hread := roundTrip_vec ⟨b, hsize⟩ rest
  rw [readString, show writeBytes b = writeVec ⟨b, hsize⟩ from rfl, hread]
  rfl

theorem readString_size {data b rest : Bytes} (h : readString data = some (b, rest)) :
    b.length < 2 ^ 64 := by
  obtain ⟨⟨v, r⟩, -, hv⟩ := Option.map_eq_some_iff.mp h
  rw [← (Prod.mk.inj hv).1]
  exact v.size_lt

/-! ## Signals -/

def SignalType.toByte : SignalType → UInt8
  | .offer => 0
  | .answer => 1
  | .decline => 2
  | .hangup => 3
  | .other => 4

def SignalType.ofByte (b : UInt8) : SignalType :=
  if b = 0 then .offer
  else if b = 1 then .answer
  else if b = 2 then .decline
  else if b = 3 then .hangup
  else .other

theorem SignalType.ofByte_toByte (t : SignalType) : SignalType.ofByte t.toByte = t := by
  cases t <;> rfl

/-- `serialize_signal`. -/
def serializeSignal (signal : CallSignal) : Bytes :=
  signal.version :: signal.type.toByte :: (writeU64 signal.timestamp ++ (writeBytes signal.callId ++
    (writeBytes signal.callerAddress ++ (writeBytes signal.calleeAddress ++
    (writeBytes signal.peerLabel ++ (writeBytes signal.callerPubkeyB64 ++
    (writeBytes signal.callerRsaPublicPem ++ (signal.encryptionMode ::
    (writeFlag signal.obfuscateAudio ++ (writeU32 signal.sampleRate ++ (writeU16 signal.channels ++
    (writeU16 signal.bitsPerSample ++ (writeU16 signal.frameDurationMs ++
    (writeU32 signal.capabilityFlags ++ (writeBytes signal.codec ++
    (writeBytes signal.note ++ []))))))))))))))))

def readSignal : Decoder CallSignal UInt8 :=
  andThen readU8 fun version =>
  andThen readU8 fun type =>
  andThen readU64 fun timestamp =>
  andThen readString fun callId =>
  andThen readString fun caller =>
  andThen readString fun callee =>
  andThen readString fun peer =>
  andThen readString fun callerPubkey =>
  andThen readString fun callerRsa =>
  andThen readU8 fun encryptionMode =>
  andThen readFlag fun obfuscateAudio =>
  andThen readU32 fun sampleRate =>
  andThen readU16 fun channels =>
  andThen readU16 fun bitsPerSample =>
  andThen (if 2 ≤ version then readU16 else done 20) fun frameDurationMs =>
  andThen (if 2 ≤ version then readU32 else done (capabilityAesGcm ||| capabilityOpus))
    fun capabilityFlags =>
  andThen (if 2 ≤ version then readString else done []) fun codec =>
  andThen readString fun note =>
  done
    { version := version
      type := SignalType.ofByte type
      timestamp := timestamp
      callId := callId
      callerAddress := caller
      calleeAddress := callee
      peerLabel := peer
      callerPubkeyB64 := callerPubkey
      callerRsaPublicPem := callerRsa
      encryptionMode := encryptionMode
      obfuscateAudio := obfuscateAudio
      sampleRate := sampleRate
      channels := channels
      bitsPerSample := bitsPerSample
      frameDurationMs := frameDurationMs
      capabilityFlags := capabilityFlags
      codec := if codec = [] then codecOpusName else codec
      note := note }

/-- `deserialize_signal`. -/
def deserializeSignal (bytes : Bytes) : Option CallSignal :=
  if bytes.length < 2 + 8 then none else (readSignal bytes).map Prod.fst

/-- The strings of a signal have a size. -/
structure CallSignal.Sized (signal : CallSignal) : Prop where
  callId : signal.callId.length < 2 ^ 64
  callerAddress : signal.callerAddress.length < 2 ^ 64
  calleeAddress : signal.calleeAddress.length < 2 ^ 64
  peerLabel : signal.peerLabel.length < 2 ^ 64
  callerPubkeyB64 : signal.callerPubkeyB64.length < 2 ^ 64
  callerRsaPublicPem : signal.callerRsaPublicPem.length < 2 ^ 64
  codec : signal.codec.length < 2 ^ 64
  note : signal.note.length < 2 ^ 64

/-- A signal of version 2 that names its codec is read back. -/
theorem deserializeSignal_serialize {signal : CallSignal} (hversion : 2 ≤ signal.version)
    (hcodec : signal.codec ≠ []) (hsized : signal.Sized) :
    deserializeSignal (serializeSignal signal) = some signal := by
  have hlength : ¬ (serializeSignal signal).length < 2 + 8 := by
    rw [serializeSignal, List.length_cons, List.length_cons, List.length_append, writeU64,
      length_writeInt]
    omega
  have hread : readSignal (serializeSignal signal) = some (signal, []) := by
    rw [readSignal, serializeSignal, andThen_of_eq (readU8_cons _ _),
      andThen_of_eq (readU8_cons _ _), andThen_of_eq (readU64_write _ _),
      andThen_of_eq (readString_write hsized.callId _),
      andThen_of_eq (readString_write hsized.callerAddress _),
      andThen_of_eq (readString_write hsized.calleeAddress _),
      andThen_of_eq (readString_write hsized.peerLabel _),
      andThen_of_eq (readString_write hsized.callerPubkeyB64 _),
      andThen_of_eq (readString_write hsized.callerRsaPublicPem _),
      andThen_of_eq (readU8_cons _ _), andThen_of_eq (readFlag_write _ _),
      andThen_of_eq (roundTrip_u32 _ _), andThen_of_eq (readU16_write _ _),
      andThen_of_eq (readU16_write _ _), if_pos hversion, if_pos hversion, if_pos hversion,
      andThen_of_eq (readU16_write _ _), andThen_of_eq (roundTrip_u32 _ _),
      andThen_of_eq (readString_write hsized.codec _),
      andThen_of_eq (readString_write hsized.note _), if_neg hcodec, SignalType.ofByte_toByte]
    rfl
  rw [deserializeSignal, if_neg hlength, hread, Option.map_some]

/-- `parse_signal_content`; an exception is `none` as well. -/
def parseSignalContent (content : ContentEnvelope) : Option CallSignal :=
  if content.type ≠ .voiceControl then none else deserializeSignal content.attachmentBytes

/-! ## Frames -/

/-- `build_frame_aad`. -/
def buildFrameAad (frame : AudioFrame) : Bytes :=
  frame.version :: (writeU64 frame.timestamp ++ (writeU64 frame.sequence ++
    (writeBytes frame.callId ++ (writeU32 frame.sampleRate ++ (writeU16 frame.channels ++
    (writeU16 frame.bitsPerSample ++ (writeU16 frame.frameDurationMs ++ (frame.codec ::
    (writeFlag frame.encrypted ++ (writeFlag frame.obfuscated ++ []))))))))))

/-- `serialize_audio_frame`. -/
def serializeAudioFrame (frame : AudioFrame) : Bytes :=
  buildFrameAad frame ++ (writeBytes frame.iv ++ (writeBytes frame.authTag ++
    (writeBytes frame.encodedAudio ++ [])))

def codecOpus : UInt8 := 1

def readAudioFrame : Decoder AudioFrame UInt8 :=
  andThen readU8 fun version =>
  andThen readU64 fun timestamp =>
  andThen readU64 fun sequence =>
  andThen readString fun callId =>
  andThen readU32 fun sampleRate =>
  andThen readU16 fun channels =>
  andThen readU16 fun bitsPerSample =>
  andThen (if 2 ≤ version then readU16 else done 20) fun frameDurationMs =>
  andThen (if 2 ≤ version then readU8 else done codecOpus) fun codec =>
  andThen (if 2 ≤ version then readFlag else done true) fun encrypted =>
  andThen readFlag fun obfuscated =>
  andThen readString fun iv =>
  andThen readString fun authTag =>
  andThen readString fun encodedAudio =>
  done
    { version := version
      timestamp := timestamp
      sequence := sequence
      callId := callId
      sampleRate := sampleRate
      channels := channels
      bitsPerSample := bitsPerSample
      frameDurationMs := frameDurationMs
      codec := codec
      encrypted := encrypted
      obfuscated := obfuscated
      iv := iv
      authTag := authTag
      encodedAudio := encodedAudio
      pcmBytes := [] }

/-- `deserialize_audio_frame`. -/
def deserializeAudioFrame (bytes : Bytes) : Option AudioFrame :=
  if bytes.length < 1 + 8 * 2 then none else (readAudioFrame bytes).map Prod.fst

/-- `parse_audio_frame_content`; an exception is `none` as well. -/
def parseAudioFrameContent (content : ContentEnvelope) : Option AudioFrame :=
  if content.type ≠ .voiceFrame then none else deserializeAudioFrame content.attachmentBytes

/-- A frame of version 2 is read back without its local audio. -/
theorem deserializeAudioFrame_serialize {frame : AudioFrame} (hversion : 2 ≤ frame.version)
    (hcallId : frame.callId.length < 2 ^ 64) (hiv : frame.iv.length < 2 ^ 64)
    (htag : frame.authTag.length < 2 ^ 64) (haudio : frame.encodedAudio.length < 2 ^ 64) :
    deserializeAudioFrame (serializeAudioFrame frame) = some { frame with pcmBytes := [] } := by
  have hlength : ¬ (serializeAudioFrame frame).length < 1 + 8 * 2 := by
    rw [serializeAudioFrame, buildFrameAad, List.cons_append, List.length_cons, List.length_append,
      List.length_append, List.length_append, writeU64, writeU64, length_writeInt, length_writeInt]
    omega
  have hread : readAudioFrame (serializeAudioFrame frame)
      = some ({ frame with pcmBytes := [] }, []) := by
    rw [readAudioFrame, serializeAudioFrame, buildFrameAad]
    simp only [List.cons_append, List.append_assoc, List.nil_append]
    rw [andThen_of_eq (readU8_cons _ _), andThen_of_eq (readU64_write _ _),
      andThen_of_eq (readU64_write _ _), andThen_of_eq (readString_write hcallId _),
      andThen_of_eq (roundTrip_u32 _ _), andThen_of_eq (readU16_write _ _),
      andThen_of_eq (readU16_write _ _), if_pos hversion, if_pos hversion, if_pos hversion,
      andThen_of_eq (readU16_write _ _), andThen_of_eq (readU8_cons _ _),
      andThen_of_eq (readFlag_write _ _), andThen_of_eq (readFlag_write _ _),
      andThen_of_eq (readString_write hiv _), andThen_of_eq (readString_write htag _),
      andThen_of_eq (readString_write haudio _)]
    rfl
  rw [deserializeAudioFrame, if_neg hlength, hread, Option.map_some]

/-- What is read has a call id with a size. -/
theorem callId_size {bytes : Bytes} {frame : AudioFrame}
    (h : deserializeAudioFrame bytes = some frame) : frame.callId.length < 2 ^ 64 := by
  rw [deserializeAudioFrame] at h
  split at h
  · cases h
  · obtain ⟨⟨read, rest⟩, hread, rfl⟩ := Option.map_eq_some_iff.mp h
    obtain ⟨_, _, -, h⟩ := andThen_eq_some hread
    iterate 2 obtain ⟨_, _, -, h⟩ := andThen_eq_some h
    obtain ⟨callId, _, hcallId, h⟩ := andThen_eq_some h
    iterate 10 obtain ⟨_, _, -, h⟩ := andThen_eq_some h
    rw [← (Prod.mk.inj (Option.some.inj h)).1]
    exact readString_size hcallId

/-- A frame without what the associated data, the nonce and the ciphertext leave
open: the tag and the local audio. -/
def AudioFrame.sealed (frame : AudioFrame) : AudioFrame :=
  { frame with authTag := [], pcmBytes := [] }

/-- The associated data determines the fields before the nonce. -/
theorem sealed_eq_of_aad {frame frame' : AudioFrame} (hsize : frame.callId.length < 2 ^ 64)
    (hsize' : frame'.callId.length < 2 ^ 64) (haad : buildFrameAad frame = buildFrameAad frame')
    (hiv : frame.iv = frame'.iv) (haudio : frame.encodedAudio = frame'.encodedAudio) :
    frame.sealed = frame'.sealed := by
  rw [buildFrameAad, buildFrameAad] at haad
  obtain ⟨hversion, haad⟩ := List.cons.inj haad
  obtain ⟨htimestamp, haad⟩ := RoundTrip.append_inj readU64_write haad
  obtain ⟨hsequence, haad⟩ := RoundTrip.append_inj readU64_write haad
  have hread := readString_write hsize
    (writeU32 frame.sampleRate ++ (writeU16 frame.channels ++ (writeU16 frame.bitsPerSample ++
      (writeU16 frame.frameDurationMs ++ (frame.codec :: (writeFlag frame.encrypted ++
        (writeFlag frame.obfuscated ++ [])))))))
  rw [haad, readString_write hsize'] at hread
  obtain ⟨hcallId, haad⟩ := Prod.mk.inj (Option.some.inj hread)
  obtain ⟨hrate, haad⟩ := RoundTrip.append_inj roundTrip_u32 haad
  obtain ⟨hchannels, haad⟩ := RoundTrip.append_inj readU16_write haad
  obtain ⟨hbits, haad⟩ := RoundTrip.append_inj readU16_write haad
  obtain ⟨hduration, haad⟩ := RoundTrip.append_inj readU16_write haad
  obtain ⟨hcodec, haad⟩ := List.cons.inj haad
  obtain ⟨hencrypted, haad⟩ := RoundTrip.append_inj readFlag_write haad
  obtain ⟨hobfuscated, -⟩ := RoundTrip.append_inj readFlag_write haad
  rw [AudioFrame.sealed, AudioFrame.sealed, AudioFrame.mk.injEq]
  exact ⟨hversion, htimestamp, hsequence, hcallId.symm, hrate.symm, hchannels.symm, hbits.symm,
    hduration.symm, hcodec.symm, hencrypted.symm, hobfuscated.symm, hiv, rfl, haudio, rfl⟩

end Voice

end Cryptex
