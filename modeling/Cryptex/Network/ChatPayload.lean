import Cryptex.Transaction
import Cryptex.Wallet

/-!
# Chat payloads

`ChatPayload` of `network.cpp` and the checks and the decryption of
`chat_secure.cpp`. Key agreement, AES-GCM and RSA are parameters.
-/

namespace Cryptex

open Codec

namespace Chat

def chatFlagSigned : UInt8 := 0x01

def chatFlagEncrypted : UInt8 := 0x02

def chatTypePublic : UInt8 := 0

def chatTypePrivate : UInt8 := 1

def chatTypeVoiceControl : UInt8 := 2

def chatTypeVoiceFrame : UInt8 := 3

def chatTypeMail : UInt8 := 4

def maxChatAgeSeconds : Int := 24 * 60 * 60

def maxChatFutureSkewSeconds : Int := 5 * 60

structure ChatPayload where
  version : UInt8
  chatType : UInt8
  flags : UInt8
  kdfProfile : UInt8
  cipherProfile : UInt8
  timestamp : UInt64
  nonce : UInt64
  sender : Bytes
  senderPubkey : Bytes
  channel : Bytes
  recipient : Bytes
  recipientPubkey : Bytes
  wrappedKey : Bytes
  body : Bytes
  iv : Bytes
  authTag : Bytes
  signature : Bytes
deriving DecidableEq

/-- `write_bytes`. -/
def writeBytes (b : Bytes) : Bytes := writeVarint b.length ++ b

/-- `write_int<uint64_t>`. -/
def writeU64 (value : UInt64) : Bytes := writeInt 8 value.toNat

namespace ChatPayload

/-- The bytes before the fields of a payload that depend on its version. -/
def header (p : ChatPayload) : Bytes :=
  [p.version, p.chatType, p.flags] ++ (if p.version ≥ 3 then [p.kdfProfile] else []) ++
    (if p.version ≥ 4 then [p.cipherProfile] else []) ++ writeU64 p.timestamp ++ writeU64 p.nonce ++
    writeBytes p.sender ++ writeBytes p.senderPubkey ++ writeBytes p.channel ++
    writeBytes p.recipient ++ writeBytes p.recipientPubkey ++ writeBytes p.wrappedKey

def serialize (p : ChatPayload) : Bytes :=
  if p.version < 2 then
    p.chatType :: (writeBytes p.channel ++ writeBytes p.recipient ++ writeBytes p.body)
  else
    p.header ++ writeBytes p.body ++ writeBytes p.iv ++ writeBytes p.authTag ++ writeBytes p.signature

/-- `build_chat_aad`. -/
def buildChatAad (p : ChatPayload) : Bytes := p.header

/-- `build_signature_payload`. -/
def buildSignaturePayload (p : ChatPayload) : Bytes :=
  p.buildChatAad ++ writeBytes p.iv ++ writeBytes p.body ++ writeBytes p.authTag

def signed (p : ChatPayload) : Bool := p.flags &&& chatFlagSigned ≠ 0

def encrypted (p : ChatPayload) : Bool := p.flags &&& chatFlagEncrypted ≠ 0

end ChatPayload

inductive EncryptionMode where
  | ecdh
  | rsa
deriving DecidableEq

/-- The mode that a payload names; other profiles of version 4 are refused
where it matters. -/
def ChatPayload.mode (p : ChatPayload) : EncryptionMode :=
  if p.version ≥ 4 ∧ p.cipherProfile = 1 then .rsa else .ecdh

inductive ContentType where
  | text
  | image
  | video
  | audio
  | voiceControl
  | voiceFrame
  | file
  | other
deriving DecidableEq

structure ContentEnvelope where
  type : ContentType
  text : Bytes
  attachmentBytes : Bytes
deriving DecidableEq

structure ParsedMessage where
  legacy : Bool
  authenticated : Bool
  encrypted : Bool
  decrypted : Bool
  encryptionMode : EncryptionMode
  senderAddress : Bytes
  recipientAddress : Bytes
  channel : Bytes
  timestamp : UInt64
  nonce : UInt64
  messageId : Bytes
  content : ContentEnvelope
deriving DecidableEq

/-- What the chat is linked with. `none` is an exception. -/
structure ChatLib extends Crypto where
  verifyBlob : Bytes → Bytes → Bytes → Bool
  sharedSecret : Bytes → Bytes → Option Bytes
  deriveChatKey : Bytes → ChatPayload → Option Bytes
  rsaUnwrap : Bytes → Bytes → Option Bytes
  aesGcmDecrypt : Bytes → Bytes → Bytes → Bytes → Bytes → Option Bytes
  deserializeContent : Bytes → Option ContentEnvelope

/-- The wallet of the chat: its keys and the RSA key. -/
structure ChatWallet extends Wallet where
  chatRsaPrivateKeyPem : Bytes
  chatRsaPublicKeyPem : Bytes

def emptyContent : ContentEnvelope := ⟨.text, [], []⟩

/-- `make_text_content`. -/
def makeTextContent (text : Bytes) : ContentEnvelope := { emptyContent with text := text }

section

variable (lib : ChatLib)

/-- `check_address`. -/
def checkAddress (address pubkey : Bytes) : Bool :=
  lib.addressesEqual (lib.pubkeyToAddress pubkey) address

/-- `payload_message_id`. -/
def messageId (p : ChatPayload) : Bytes :=
  Encoding.hexEncode (toPaddedBytes 64 (lib.sha3_512 p.serialize).toNat)

/-- The window of `validate_common_payload` around the clock. -/
def timestampAllowed (now : Int) (timestamp : UInt64) : Bool :=
  decide (timestamp ≠ 0 ∧ timestamp.toInt64.toInt ≤ now + maxChatFutureSkewSeconds ∧
    now ≤ timestamp.toInt64.toInt + maxChatAgeSeconds)

/-- The checks on the encryption of a private payload. -/
def privateFieldsValid (p : ChatPayload) : Bool :=
  p.encrypted && !(p.version ≥ 3 && p.kdfProfile > 3) && !(p.version ≥ 4 && p.cipherProfile > 1) &&
    !(p.recipient = [] || p.iv = [] || p.authTag = []) &&
    (p.recipientPubkey = [] || checkAddress lib p.recipient p.recipientPubkey) &&
    !(p.mode = .ecdh && p.recipientPubkey = []) && !(p.mode = .rsa && p.wrappedKey = [])

/-- The checks on a payload that is only signed. -/
def transportFieldsValid (p : ChatPayload) : Bool :=
  p.recipient ≠ [] && (p.recipientPubkey = [] || checkAddress lib p.recipient p.recipientPubkey)

/-- `validate_common_payload` for version 2 and later. -/
def validateCommonPayload (now : Int) (p : ChatPayload) : Bool :=
  p.signed && !(p.sender = [] || p.senderPubkey = [] || p.signature = []) &&
    checkAddress lib p.sender p.senderPubkey && timestampAllowed now p.timestamp &&
    lib.verifyBlob p.buildSignaturePayload p.signature p.senderPubkey &&
    (if p.chatType = chatTypePublic then true
     else if p.chatType = chatTypeVoiceFrame then transportFieldsValid lib p
     else privateFieldsValid lib p)

/-- `wallet_index_for_address`. -/
def walletIndexForAddress (w : Wallet) (address : Bytes) : Option Nat :=
  w.addresses.findIdx? (lib.addressesEqual · address)

/-- `wallet_index_for_pubkey`. -/
def walletIndexForPubkey (w : Wallet) (pubkey : Bytes) : Option Nat :=
  w.pubkeys.findIdx? (· = pubkey)

/-- The key of an encrypted payload: the outer `none` is an exception, the
inner one a payload for someone else. -/
def payloadKey (w : ChatWallet) (p : ChatPayload) : Option (Option Bytes) :=
  match p.mode with
  | .rsa =>
      let owns := (p.recipient ≠ [] ∧ (walletIndexForAddress lib w.toWallet p.recipient).isSome) ∨
        (p.recipientPubkey ≠ [] ∧ (walletIndexForPubkey w.toWallet p.recipientPubkey).isSome)
      if ¬ owns ∨ w.chatRsaPrivateKeyPem = [] then some none
      else (lib.rsaUnwrap p.wrappedKey w.chatRsaPrivateKeyPem).map some
  | .ecdh =>
      match (walletIndexForPubkey w.toWallet p.recipientPubkey).or
          (walletIndexForAddress lib w.toWallet p.recipient) with
      | none => some none
      | some index =>
          (lib.sharedSecret (w.privkeys.getD index []) p.senderPubkey).bind fun secret =>
            (lib.deriveChatKey secret p).map some

/-- `parse_chat_payload`. The summary of the content is left out. -/
def parseChatPayload (wallet : Option ChatWallet) (now : Int) (p : ChatPayload) :
    Option ParsedMessage :=
  let parsed : ParsedMessage :=
    { legacy := false, authenticated := false, encrypted := false, decrypted := false
      encryptionMode := p.mode, senderAddress := p.sender, recipientAddress := p.recipient
      channel := p.channel, timestamp := p.timestamp, nonce := p.nonce
      messageId := messageId lib p, content := emptyContent }
  if p.version < 2 then some { parsed with legacy := true, content := makeTextContent p.body }
  else if !validateCommonPayload lib now p then none
  else
    let parsed := { parsed with authenticated := true, encrypted := p.encrypted }
    if !p.encrypted then
      (lib.deserializeContent p.body).map fun content => { parsed with content := content }
    else
      match wallet with
      | none => some parsed
      | some w =>
          match payloadKey lib w p with
          | none => none
          | some none => some parsed
          | some (some key) =>
              (lib.aesGcmDecrypt p.body key p.buildChatAad p.iv p.authTag).bind fun plaintext =>
                (lib.deserializeContent plaintext).map fun content =>
                  { parsed with content := content, decrypted := true }

/-! ## What a parsed payload has -/

variable {lib} {wallet : Option ChatWallet} {now : Int} {p : ChatPayload} {parsed : ParsedMessage}

/-- The fields of a parsed message that come from the payload as it is. -/
theorem parseChatPayload_fields (h : parseChatPayload lib wallet now p = some parsed) :
    parsed.messageId = messageId lib p ∧ parsed.senderAddress = p.sender ∧
      parsed.recipientAddress = p.recipient ∧
      (2 ≤ p.version → validateCommonPayload lib now p = true) := by
  rw [parseChatPayload] at h
  simp only at h
  split at h
  · next hlegacy =>
      rw [← Option.some.inj h]
      dsimp only
      exact ⟨rfl, rfl, rfl, fun hle => absurd hlegacy (UInt8.not_lt.mpr hle)⟩
  · split at h
    · cases h
    · next hvalid =>
        rw [Bool.not_eq_true, Bool.not_eq_false'] at hvalid
        split at h
        · obtain ⟨content, -, hparsed⟩ := Option.map_eq_some_iff.mp h
          rw [← hparsed]
          dsimp only
          exact ⟨rfl, rfl, rfl, fun _ => hvalid⟩
        · split at h
          · rw [← Option.some.inj h]
            dsimp only
            exact ⟨rfl, rfl, rfl, fun _ => hvalid⟩
          · split at h
            · cases h
            · rw [← Option.some.inj h]
              dsimp only
              exact ⟨rfl, rfl, rfl, fun _ => hvalid⟩
            · obtain ⟨plaintext, -, hcontent⟩ := Option.bind_eq_some_iff.mp h
              obtain ⟨content, -, hparsed⟩ := Option.map_eq_some_iff.mp hcontent
              rw [← hparsed]
              dsimp only
              exact ⟨rfl, rfl, rfl, fun _ => hvalid⟩

/-- A payload of an older version is never decrypted. -/
theorem version_le_of_decrypted (h : parseChatPayload lib wallet now p = some parsed)
    (hdecrypted : parsed.decrypted = true) : 2 ≤ p.version := by
  by_contra hlt
  rw [parseChatPayload] at h
  simp only at h
  rw [if_pos (UInt8.not_le.mp hlt)] at h
  rw [← Option.some.inj h] at hdecrypted
  cases hdecrypted

/-- A valid payload names its sender and is within the window. -/
theorem validateCommonPayload_fields (h : validateCommonPayload lib now p = true) :
    p.senderPubkey ≠ [] ∧ checkAddress lib p.sender p.senderPubkey = true ∧
      timestampAllowed now p.timestamp = true := by
  simp only [validateCommonPayload, Bool.and_eq_true, Bool.not_eq_true', Bool.or_eq_false_iff,
    decide_eq_false_iff_not] at h
  exact ⟨h.1.1.1.1.2.1.2, h.1.1.1.2, h.1.1.2⟩

end

end Chat

end Cryptex
