import Cryptex.Network.ChatWire
import Cryptex.Network.MailPayloads
import Cryptex.Network.PeerSession

/-!
# Payloads between peers

The greeting of a peer and the content of a chat message, and what is read of
each payload that a peer writes.
-/

namespace Cryptex

open Codec Encoding Voice

/-! ## Content -/

namespace Content

/-- `ContentEnvelope` with all its fields; the two enumerations are bytes. -/
structure ContentEnvelope where
  version : UInt8 := 4
  type : UInt8 := 0
  audioPrivacy : UInt8 := 0
  mimeType : Bytes := []
  attachmentName : Bytes := []
  subject : Bytes := []
  mailTo : Bytes := []
  mailCc : Bytes := []
  text : Bytes := []
  transcript : Bytes := []
  attachmentBytes : Bytes := []
deriving DecidableEq

def contentMagic : Bytes := chars "CXM1"

/-- `make_text_content`. -/
def makeTextContent (text : Bytes) : ContentEnvelope := { text := text, mimeType := chars "text/plain" }

/-- `serialize_content`. -/
def serializeContent (content : ContentEnvelope) : Bytes :=
  contentMagic ++ (content.version :: content.type :: content.audioPrivacy ::
    (writeBytes content.mimeType ++ (writeBytes content.attachmentName ++
    (writeBytes content.subject ++ (writeBytes content.mailTo ++ (writeBytes content.mailCc ++
    (writeBytes content.text ++ (writeBytes content.transcript ++
    writeBytes content.attachmentBytes))))))))

def readContent : Decoder ContentEnvelope UInt8 :=
  andThen readU8 fun version =>
  andThen readU8 fun type =>
  andThen readU8 fun audioPrivacy =>
  andThen readString fun mime =>
  andThen readString fun name =>
  andThen (if version ≥ 3 then readString else done []) fun subject =>
  andThen (if version ≥ 4 then readString else done []) fun mailTo =>
  andThen (if version ≥ 4 then readString else done []) fun mailCc =>
  andThen readString fun text =>
  andThen (if version ≥ 2 then readString else done []) fun transcript =>
  andThen readString fun attachmentBytes =>
  done
    { version := version
      type := type
      audioPrivacy := audioPrivacy
      mimeType := mime
      attachmentName := name
      subject := subject
      mailTo := mailTo
      mailCc := mailCc
      text := text
      transcript := transcript
      attachmentBytes := attachmentBytes }

/-- `deserialize_content`: what does not begin as an envelope is a text. -/
def deserializeContent (data : Bytes) : Option ContentEnvelope :=
  if data.length < contentMagic.length + 3 ∨ data.take contentMagic.length ≠ contentMagic then
    some (makeTextContent data)
  else (readContent (data.drop contentMagic.length)).map Prod.fst

theorem deserializeContent_serialize {content : ContentEnvelope} (hversion : 4 ≤ content.version)
    (h : (serializeContent content).length < 2 ^ 64) :
    deserializeContent (serializeContent content) = some content := by
  have h₂ : content.version ≥ 2 := by grind
  have h₃ : content.version ≥ 3 := by grind
  have hmime := length_le_writeBytes content.mimeType
  have hname := length_le_writeBytes content.attachmentName
  have hsubject := length_le_writeBytes content.subject
  have hmailTo := length_le_writeBytes content.mailTo
  have hmailCc := length_le_writeBytes content.mailCc
  have htext := length_le_writeBytes content.text
  have htranscript := length_le_writeBytes content.transcript
  have hattachment := length_le_writeBytes content.attachmentBytes
  have henvelope : ¬ ((serializeContent content).length < contentMagic.length + 3 ∨
      (serializeContent content).take contentMagic.length ≠ contentMagic) := by
    rw [not_or, not_lt, not_not]
    refine ⟨?_, List.take_left⟩
    simp only [serializeContent, List.length_append, List.length_cons]
    omega
  simp only [serializeContent, List.length_append, List.length_cons] at h
  have hread : readContent ((serializeContent content).drop contentMagic.length) =
      some (content, []) := by
    rw [serializeContent, List.drop_left, readContent]
    refine (andThen_of_eq (readU8_cons _ _) _).trans ?_
    refine (andThen_of_eq (readU8_cons _ _) _).trans ?_
    refine (andThen_of_eq (readU8_cons _ _) _).trans ?_
    refine (andThen_of_eq (readString_write (by omega) _) _).trans ?_
    refine (andThen_of_eq (readString_write (by omega) _) _).trans ?_
    rw [if_pos h₃, if_pos hversion, if_pos h₂]
    refine (andThen_of_eq (readString_write (by omega) _) _).trans ?_
    refine (andThen_of_eq (readString_write (by omega) _) _).trans ?_
    refine (andThen_of_eq (readString_write (by omega) _) _).trans ?_
    refine (andThen_of_eq (readString_write (by omega) _) _).trans ?_
    refine (andThen_of_eq (readString_write (by omega) _) _).trans ?_
    exact andThen_of_eq (Mail.Wire.readString_last (by omega)) _
  rw [deserializeContent, if_neg henvelope, hread, Option.map_some]

end Content

/-! ## Greetings -/

namespace Peers

namespace VersionPayload

theorem or_one_eq {flags : UInt8} (h : flags &&& 0x01 ≠ 0) : flags ||| 0x01 = flags := by
  have hbits : ∀ b : BitVec 8, b &&& 1 ≠ 0 → b ||| 1 = b := by decide
  refine UInt8.toBitVec_inj.mp (hbits flags.toBitVec fun hzero => h ?_)
  exact UInt8.toBitVec_inj.mp hzero

/-- The flags and the address after them, in network byte order. -/
def writeAdvertisedIp (p : VersionPayload) : Bytes :=
  match p.advertisedIp with
  | none => [p.flags]
  | some ip => (p.flags ||| 0x01) :: toPaddedBytes 4 ip.addr.toNat

theorem readAdvertisedIp_write {p : VersionPayload}
    (hflags : p.flags &&& 0x01 ≠ 0 ↔ p.advertisedIp.isSome) :
    ∃ rest, writeAdvertisedIp p = p.flags :: rest ∧
      readAdvertisedIp p.flags rest = some p.advertisedIp := by
  rw [writeAdvertisedIp]
  cases hip : p.advertisedIp with
  | none =>
      rw [hip] at hflags
      refine ⟨[], rfl, ?_⟩
      rw [readAdvertisedIp, if_pos (not_not.mp fun hne => Bool.false_ne_true (hflags.mp hne))]
  | some ip =>
      rw [hip] at hflags
      have hset : p.flags &&& 0x01 ≠ 0 := hflags.mpr rfl
      refine ⟨toPaddedBytes 4 ip.addr.toNat, ?_, ?_⟩
      · rw [or_one_eq hset]
      · have hlength : ¬ (toPaddedBytes 4 ip.addr.toNat).length < 4 := by
          rw [length_toPaddedBytes]
          omega
        have htake : (toPaddedBytes 4 ip.addr.toNat).take 4 = toPaddedBytes 4 ip.addr.toNat :=
          List.take_of_length_le (length_toPaddedBytes 4 _).le
        rw [readAdvertisedIp, if_neg hset, if_neg hlength, htake,
          fromBytes_toPaddedBytes ip.addr.toNat_lt, UInt32.ofNat_toNat]

def serialize (p : VersionPayload) : Bytes :=
  writeU32 p.protocolVersion ++ (writeU32 p.bestHeight ++ (writeU16 p.listenPort ++
    writeAdvertisedIp p))

/-- A greeting whose flags say whether it has an address is read back. -/
theorem deserialize_serialize {p : VersionPayload} (defaultP2pPort : UInt16)
    (hflags : p.flags &&& 0x01 ≠ 0 ↔ p.advertisedIp.isSome) :
    deserialize defaultP2pPort p.serialize = some p := by
  obtain ⟨rest, hwrite, hread⟩ := readAdvertisedIp_write hflags
  have hlength : ¬ p.serialize.length < 8 := by
    simp only [serialize, List.length_append, writeU32, length_writeInt]
    omega
  have htail : ¬ (writeU16 p.listenPort ++ p.flags :: rest).length < 3 := by
    simp only [List.length_append, writeU16, length_writeInt, List.length_cons]
    omega
  rw [deserialize, if_neg hlength, serialize, hwrite]
  refine (bind_of_eq (roundTrip_u32 _ _) _).trans ?_
  refine (bind_of_eq (roundTrip_u32 _ _) _).trans ?_
  refine (if_neg htail).trans ?_
  refine (bind_of_eq (readU16_write _ _) _).trans ?_
  refine (bind_of_eq (readU8_cons _ _) _).trans ?_
  exact bind_of_eq hread _

end VersionPayload

end Peers

/-! ## Voice -/

namespace Voice

theorem deserializeSignal_write {signal : CallSignal} (hversion : 2 ≤ signal.version)
    (hcodec : signal.codec ≠ []) (h : (serializeSignal signal).length < 2 ^ 64) :
    deserializeSignal (serializeSignal signal) = some signal := by
  have hcallId := length_le_writeBytes signal.callId
  have hcaller := length_le_writeBytes signal.callerAddress
  have hcallee := length_le_writeBytes signal.calleeAddress
  have hpeer := length_le_writeBytes signal.peerLabel
  have hpubkey := length_le_writeBytes signal.callerPubkeyB64
  have hrsa := length_le_writeBytes signal.callerRsaPublicPem
  have hcodecSize := length_le_writeBytes signal.codec
  have hnote := length_le_writeBytes signal.note
  simp only [serializeSignal, List.length_cons, List.length_append] at h
  refine deserializeSignal_serialize hversion hcodec ?_
  constructor <;> omega

theorem deserializeAudioFrame_write {frame : AudioFrame} (hversion : 2 ≤ frame.version)
    (h : (serializeAudioFrame frame).length < 2 ^ 64) :
    deserializeAudioFrame (serializeAudioFrame frame) = some { frame with pcmBytes := [] } := by
  have hcallId := length_le_writeBytes frame.callId
  have hiv := length_le_writeBytes frame.iv
  have htag := length_le_writeBytes frame.authTag
  have haudio := length_le_writeBytes frame.encodedAudio
  simp only [serializeAudioFrame, buildFrameAad, List.length_cons, List.length_append] at h
  exact deserializeAudioFrame_serialize hversion (by omega) (by omega) (by omega) (by omega)

end Voice

/-! ## All payloads -/

namespace Peers

open Chat Mail.Wire

/-- What `write` makes of a value is read as what the format carries of it. A
vector has fewer than `2 ^ 64` bytes. -/
def ReadsBack {α : Type} (write : α → Bytes) (read : Bytes → Option α) (carried : α → α) (x : α) :
    Prop :=
  (write x).length < 2 ^ 64 → read (write x) = some (carried x)

/-- Every payload is read as it was written, in the fields that its format
carries. -/
theorem payloads_read_back :
    (∀ p : ChatPayload, 2 ≤ p.version ∨ p.version = 1 ∧ p.chatType ≤ 1 →
      ReadsBack ChatPayload.serialize ChatPayload.deserialize ChatPayload.carried p) ∧
    (∀ (defaultP2pPort : UInt16) (p : VersionPayload),
      (p.flags &&& 0x01 ≠ 0 ↔ p.advertisedIp.isSome) →
      ReadsBack VersionPayload.serialize (VersionPayload.deserialize defaultP2pPort) id p) ∧
    (∀ p, ReadsBack DhtMailStorePayload.serialize DhtMailStorePayload.deserialize id p) ∧
    (∀ p, ReadsBack DhtMailFindPayload.serialize DhtMailFindPayload.deserialize id p) ∧
    (∀ p, ReadsBack DhtMailResultsPayload.serialize DhtMailResultsPayload.deserialize id p) ∧
    (∀ p, ReadsBack DhtMailChallengePayload.serialize DhtMailChallengePayload.deserialize id p) ∧
    (∀ p, ReadsBack Mail.Wire.DhtMailProofPayload.serialize
      Mail.Wire.DhtMailProofPayload.deserialize id p) ∧
    (∀ p, ReadsBack DhtMailNatIntroPayload.serialize DhtMailNatIntroPayload.deserialize
      DhtMailNatIntroPayload.carried p) ∧
    (∀ p : DhtMailReceiptPayload, 2 ≤ p.version →
      ReadsBack DhtMailReceiptPayload.serialize DhtMailReceiptPayload.deserialize
        (fun p => { p with receipt := DhtMailReceiptPayload.carried p.receipt }) p) ∧
    (∀ content : Content.ContentEnvelope, 4 ≤ content.version →
      ReadsBack Content.serializeContent Content.deserializeContent id content) ∧
    (∀ signal : CallSignal, 2 ≤ signal.version → signal.codec ≠ [] →
      ReadsBack serializeSignal deserializeSignal id signal) ∧
    (∀ frame : AudioFrame, 2 ≤ frame.version →
      ReadsBack serializeAudioFrame deserializeAudioFrame
        (fun frame => { frame with pcmBytes := [] }) frame) := by
  refine ⟨fun p h => ?_, fun port p hflags _ => ?_, fun p => ?_, fun p => ?_, fun p => ?_,
    fun p => ?_, fun p => ?_, fun p => ?_, fun p hversion => ?_, fun content hversion => ?_,
    fun signal hversion hcodec => ?_, fun frame hversion => ?_⟩
  · exact ChatPayload.deserialize_carried h
  · exact VersionPayload.deserialize_serialize port hflags
  · exact DhtMailStorePayload.deserialize_serialize
  · exact DhtMailFindPayload.deserialize_serialize
  · exact DhtMailResultsPayload.deserialize_serialize
  · exact DhtMailChallengePayload.deserialize_serialize
  · exact Mail.Wire.DhtMailProofPayload.deserialize_serialize
  · exact DhtMailNatIntroPayload.deserialize_serialize
  · exact DhtMailReceiptPayload.deserialize_serialize hversion
  · exact Content.deserializeContent_serialize hversion
  · exact deserializeSignal_write hversion hcodec
  · exact deserializeAudioFrame_write hversion

end Peers

end Cryptex
