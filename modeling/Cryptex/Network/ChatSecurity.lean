import Cryptex.Network.PeerPayloads

/-!
# Making and reading chat messages

The functions of `chat_secure.cpp` that make a payload, beside
`parseChatPayload` that reads one: who reads what of a message that a wallet
made, once it went over the wire. Signatures, key agreement, key derivation,
AES-GCM and RSA are parameters, and `ChatKit.Sound` is what is relied on.
-/

namespace Cryptex

open Codec

namespace Chat

/-! ## The library -/

inductive KeyDerivation where
  | legacySha3
  | pbkdf2
  | scrypt
  | argon2id
deriving DecidableEq

def KeyDerivation.toByte : KeyDerivation → UInt8
  | .legacySha3 => 0
  | .pbkdf2 => 1
  | .scrypt => 2
  | .argon2id => 3

def EncryptionMode.toByte : EncryptionMode → UInt8
  | .ecdh => 0
  | .rsa => 1

def ContentType.ofByte (b : UInt8) : ContentType :=
  match b.toNat with
  | 0 => .text
  | 1 => .image
  | 2 => .video
  | 3 => .audio
  | 4 => .voiceControl
  | 5 => .voiceFrame
  | 6 => .file
  | _ => .other

/-- What a reader uses of an envelope. -/
def envelopeOf (content : Content.ContentEnvelope) : ContentEnvelope :=
  ⟨.ofByte content.type, content.text, content.attachmentBytes⟩

/-- What `chat_secure.cpp` calls. `none` is an exception. -/
structure ChatKit extends Crypto where
  signHash : Hash256 → Bytes → Option Bytes
  sharedSecret : Bytes → Bytes → Option Bytes
  /-- `derive_provider_key` with the parameters of a profile: secret and salt. -/
  providerKey : KeyDerivation → Bytes → Bytes → Option Bytes
  rsaEncrypt : Bytes → Bytes → Option Bytes
  rsaDecrypt : Bytes → Bytes → Option Bytes
  /-- Plaintext, key, associated data and initialization vector to ciphertext and
  tag. -/
  aesGcmEncrypt : Bytes → Bytes → Bytes → Bytes → Option (Bytes × Bytes)
  aesGcmDecrypt : Bytes → Bytes → Bytes → Bytes → Bytes → Option Bytes

namespace ChatKit

variable (kit : ChatKit)

/-- `digest32` of a string signed by `sign_blob`. -/
def signBlob (blob privkey : Bytes) : Option Bytes := kit.signHash (kit.hash256 blob) privkey

def verifyBlob (blob signature pubkey : Bytes) : Bool :=
  kit.verifySignature (kit.hash256 blob) signature pubkey

def legacyChatKey (secret : Bytes) (p : ChatPayload) : Bytes :=
  (kit.hash256 (p.buildChatAad ++ secret)).toBytes

def deriveChatKey (secret : Bytes) (p : ChatPayload) : Option Bytes :=
  if p.version < 3 ∨ p.kdfProfile = 0 then some (kit.legacyChatKey secret p)
  else if p.kdfProfile = 1 then kit.providerKey .pbkdf2 secret p.buildChatAad
  else if p.kdfProfile = 2 then kit.providerKey .scrypt secret p.buildChatAad
  else kit.providerKey .argon2id secret p.buildChatAad

/-- `rsa_unwrap_session_key`. -/
def rsaUnwrapSessionKey (wrapped pem : Bytes) : Option Bytes :=
  (kit.rsaDecrypt wrapped pem).bind fun key => if key.length ≠ 32 then none else some key

/-- What `parse_chat_payload` calls. -/
def toChatLib : ChatLib where
  toCrypto := kit.toCrypto
  verifyBlob := kit.verifyBlob
  sharedSecret := kit.sharedSecret
  deriveChatKey := kit.deriveChatKey
  rsaUnwrap := kit.rsaUnwrapSessionKey
  aesGcmDecrypt := kit.aesGcmDecrypt
  deserializeContent data := (Content.deserializeContent data).map envelopeOf

end ChatKit

/-! ## Making a payload -/

/-- The clock and the random numbers of one message. -/
structure Fresh where
  now : Int64
  nonce : UInt64
  iv : Bytes
  sessionKey : Bytes
  iv_length : iv.length = 12
  sessionKey_length : sessionKey.length = 32

structure PrivateRequest where
  senderAddress : Bytes
  recipientAddress : Bytes
  recipientPubkey : Bytes
  content : Content.ContentEnvelope
  kdf : KeyDerivation
  mode : EncryptionMode
  recipientRsaPublicPem : Bytes
  chatType : UInt8

section

variable (kit : ChatKit) (w : Wallet) (fresh : Fresh)

def resolveSenderIndex (senderAddress : Bytes) : Option Nat :=
  if senderAddress ≠ [] then walletIndexForAddress kit.toChatLib w senderAddress
  else if w.addresses = [] ∨ w.pubkeys = [] ∨ w.privkeys = [] then none
  else some 0

/-- The fields that every payload of a sender has. -/
def senderPayload (index : Nat) : ChatPayload where
  version := 4
  chatType := chatTypePublic
  flags := chatFlagSigned
  kdfProfile := 0
  cipherProfile := EncryptionMode.ecdh.toByte
  timestamp := fresh.now.toUInt64
  nonce := fresh.nonce
  sender := w.addresses.getD index []
  senderPubkey := w.pubkeys.getD index []
  channel := []
  recipient := []
  recipientPubkey := []
  wrappedKey := []
  body := []
  iv := []
  authTag := []
  signature := []

def signPayload (index : Nat) (p : ChatPayload) : Option ChatPayload :=
  (kit.signBlob p.buildSignaturePayload (w.privkeys.getD index [])).map fun signature =>
    { p with signature := signature }

def makeSignedPublicChat (senderAddress channel : Bytes) (content : Content.ContentEnvelope) :
    Option ChatPayload :=
  (resolveSenderIndex kit w senderAddress).bind fun index =>
    signPayload kit w index
      { senderPayload w fresh index with
        channel := channel
        body := Content.serializeContent content }

def makeSignedTransportChat (senderAddress recipientAddress recipientPubkey : Bytes)
    (content : Content.ContentEnvelope) (chatType : UInt8) : Option ChatPayload :=
  if recipientAddress = [] then none
  else if recipientPubkey ≠ [] ∧
      checkAddress kit.toChatLib recipientAddress recipientPubkey = false then none
  else
    (resolveSenderIndex kit w senderAddress).bind fun index =>
      signPayload kit w index
        { senderPayload w fresh index with
          chatType := chatType
          recipient := recipientAddress
          recipientPubkey := recipientPubkey
          body := Content.serializeContent content }

/-- The payload before it is encrypted. -/
def privatePayload (index : Nat) (q : PrivateRequest) : ChatPayload :=
  { senderPayload w fresh index with
    chatType := q.chatType
    flags := chatFlagSigned ||| chatFlagEncrypted
    kdfProfile := if q.mode = .ecdh then q.kdf.toByte else 0
    cipherProfile := q.mode.toByte
    recipient :=
      if q.recipientAddress = [] ∧ q.recipientPubkey ≠ [] then kit.pubkeyToAddress q.recipientPubkey
      else q.recipientAddress
    recipientPubkey := q.recipientPubkey }

/-- The key of a private message, and the payload that tells it. -/
def withSessionKey (index : Nat) (q : PrivateRequest) (p : ChatPayload) :
    Option (ChatPayload × Bytes) :=
  match q.mode with
  | .ecdh =>
      (kit.sharedSecret (w.privkeys.getD index []) q.recipientPubkey).bind fun secret =>
        (kit.deriveChatKey secret p).map fun key => (p, key)
  | .rsa =>
      (kit.rsaEncrypt fresh.sessionKey q.recipientRsaPublicPem).map fun wrapped =>
        ({ p with wrappedKey := wrapped }, fresh.sessionKey)

def makeEncryptedPrivateChat (q : PrivateRequest) : Option ChatPayload :=
  if q.mode = .ecdh ∧ q.recipientPubkey = [] then none
  else if q.recipientPubkey ≠ [] ∧ q.recipientAddress ≠ [] ∧
      checkAddress kit.toChatLib q.recipientAddress q.recipientPubkey = false then none
  else if q.mode = .rsa ∧ q.recipientRsaPublicPem = [] then none
  else
    (resolveSenderIndex kit w q.senderAddress).bind fun index =>
      (withSessionKey kit w fresh index q (privatePayload kit w fresh index q)).bind fun (p, key) =>
        (kit.aesGcmEncrypt (Content.serializeContent q.content) key p.buildChatAad fresh.iv).bind
          fun (body, authTag) =>
            signPayload kit w index { p with iv := fresh.iv, body := body, authTag := authTag }

end

/-! ## What is relied on -/

/-- What the cryptography does for matching keys: `KeyPair priv pub` on the
curve, `RsaPair publicPem privatePem` for the two files. -/
structure ChatKit.Sound (kit : ChatKit) (KeyPair RsaPair : Bytes → Bytes → Prop) : Prop where
  verifies : ∀ {priv pub h signature}, KeyPair priv pub → kit.signHash h priv = some signature →
    kit.verifySignature h signature pub = true ∧ signature ≠ []
  agrees : ∀ {priv pub priv' pub'}, KeyPair priv pub → KeyPair priv' pub' →
    kit.sharedSecret priv pub' = kit.sharedSecret priv' pub
  unwraps : ∀ {key publicPem privatePem wrapped}, RsaPair publicPem privatePem →
    kit.rsaEncrypt key publicPem = some wrapped → kit.rsaDecrypt wrapped privatePem = some key
  wraps : ∀ {key publicPem wrapped}, kit.rsaEncrypt key publicPem = some wrapped → wrapped ≠ []
  decrypts : ∀ {plaintext key aad iv body authTag},
    kit.aesGcmEncrypt plaintext key aad iv = some (body, authTag) →
      kit.aesGcmDecrypt body key aad iv authTag = some plaintext ∧ authTag ≠ []
  names : ∀ pub, checkAddress kit.toChatLib (kit.pubkeyToAddress pub) pub = true

/-- A wallet has a matching key for each of its addresses. -/
structure ChatKit.Keys (kit : ChatKit) (KeyPair : Bytes → Bytes → Prop) (w : Wallet) : Prop where
  pubkeys_length : w.pubkeys.length = w.addresses.length
  pair : ∀ i < w.addresses.length, KeyPair (w.privkeys.getD i []) (w.pubkeys.getD i [])
  address : ∀ i < w.addresses.length,
    checkAddress kit.toChatLib (w.addresses.getD i []) (w.pubkeys.getD i []) = true
  named : ∀ i < w.addresses.length, w.addresses.getD i [] ≠ [] ∧ w.pubkeys.getD i [] ≠ []

variable {kit : ChatKit} {KeyPair RsaPair : Bytes → Bytes → Prop} {w : Wallet} {fresh : Fresh}

/-- The signature does not cover itself. -/
theorem buildSignaturePayload_signature (p : ChatPayload) (signature : Bytes) :
    ChatPayload.buildSignaturePayload { p with signature := signature } =
      p.buildSignaturePayload := by
  rw [ChatPayload.buildSignaturePayload, ChatPayload.buildSignaturePayload]
  rfl

theorem verifyBlob_toChatLib (kit : ChatKit) (blob signature pubkey : Bytes) :
    kit.toChatLib.verifyBlob blob signature pubkey =
      kit.verifySignature (kit.hash256 blob) signature pubkey := rfl

theorem resolveSenderIndex_lt {senderAddress : Bytes} {index : Nat}
    (h : resolveSenderIndex kit w senderAddress = some index) :
    index < w.addresses.length := by
  rw [resolveSenderIndex] at h
  split at h
  · exact (List.findIdx?_eq_some_iff_getElem.mp h).1
  · split at h
    · cases h
    · next hkeys =>
        cases h
        exact List.length_pos_of_ne_nil fun hnil => hkeys (.inl hnil)

/-- The fields of a payload that its signer fills. -/
structure SentBy (w : Wallet) (index : Nat) (p : ChatPayload) : Prop where
  version : p.version = 4
  sender : p.sender = w.addresses.getD index []
  senderPubkey : p.senderPubkey = w.pubkeys.getD index []
  signed : p.signed = true

/-- What is left to check of a payload that was signed: its time, and what its
type asks for. -/
theorem validate_signed {index : Nat} {p p' : ChatPayload} (hkit : kit.Sound KeyPair RsaPair)
    (hw : kit.Keys KeyPair w) (hindex : index < w.addresses.length) (hsent : SentBy w index p)
    (h : signPayload kit w index p = some p') (now : Int)
    (hfields : (if p'.chatType = chatTypePublic then true
      else if p'.chatType = chatTypeVoiceFrame then transportFieldsValid kit.toChatLib p'
      else privateFieldsValid kit.toChatLib p') = true) :
    validateCommonPayload kit.toChatLib now p' = timestampAllowed now p'.timestamp := by
  obtain ⟨signature, hsign, rfl⟩ := Option.map_eq_some_iff.mp h
  obtain ⟨hverify, hne⟩ := hkit.verifies (hw.pair index hindex) hsign
  obtain ⟨haddress, hpubkey⟩ := hw.named index hindex
  have hverified : kit.toChatLib.verifyBlob
      (ChatPayload.buildSignaturePayload { p with signature := signature }) signature
        p.senderPubkey = true := by
    rw [buildSignaturePayload_signature, verifyBlob_toChatLib, hsent.senderPubkey]
    exact hverify
  have hsigned : ChatPayload.signed { p with signature := signature } = true := hsent.signed
  have hchecked : checkAddress kit.toChatLib p.sender p.senderPubkey = true := by
    rw [hsent.sender, hsent.senderPubkey]
    exact hw.address index hindex
  have hnamed : ¬ (p.sender = [] ∨ p.senderPubkey = [] ∨ signature = []) := by
    rw [hsent.sender, hsent.senderPubkey]
    rintro (hnil | hnil | hnil)
    · exact haddress hnil
    · exact hpubkey hnil
    · exact hne hnil
  have hnone : (decide (p.sender = []) || decide (p.senderPubkey = []) || decide (signature = [])) =
      false := by
    simp only [← Bool.not_eq_true, Bool.or_eq_true, decide_eq_true_eq, or_assoc]
    exact hnamed
  rw [validateCommonPayload, hsigned, hchecked, hverified]
  simp only [hnone, hfields, Bool.not_false, Bool.true_and, Bool.and_true]

/-! ## Private messages -/

/-- What `make_encrypted_private_chat` did. -/
structure Encrypts (kit : ChatKit) (w : Wallet) (fresh : Fresh) (q : PrivateRequest)
    (p : ChatPayload) (index : Nat) (key : Bytes) : Prop where
  index_lt : index < w.addresses.length
  has_pubkey : q.mode = .ecdh → q.recipientPubkey ≠ []
  checked : q.recipientPubkey ≠ [] →
    q.recipientAddress = [] ∨ checkAddress kit.toChatLib q.recipientAddress q.recipientPubkey = true
  sealed : ∃ p₁ body authTag, withSessionKey kit w fresh index q (privatePayload kit w fresh index q) =
      some (p₁, key) ∧
    kit.aesGcmEncrypt (Content.serializeContent q.content) key p₁.buildChatAad fresh.iv =
      some (body, authTag) ∧
    signPayload kit w index { p₁ with iv := fresh.iv, body := body, authTag := authTag } = some p

theorem encrypts {q : PrivateRequest} {p : ChatPayload}
    (h : makeEncryptedPrivateChat kit w fresh q = some p) :
    ∃ index key, Encrypts kit w fresh q p index key := by
  rw [makeEncryptedPrivateChat] at h
  split at h
  · cases h
  · next hpubkey =>
      split at h
      · cases h
      · next haddress =>
          split at h
          · cases h
          · obtain ⟨index, hindex, h⟩ := Option.bind_eq_some_iff.mp h
            obtain ⟨⟨p₁, key⟩, hkey, h⟩ := Option.bind_eq_some_iff.mp h
            obtain ⟨⟨body, authTag⟩, hbody, h⟩ := Option.bind_eq_some_iff.mp h
            refine ⟨index, key, resolveSenderIndex_lt hindex, fun hmode hnil => hpubkey ⟨hmode, hnil⟩,
              fun hne => ?_, p₁, body, authTag, hkey, hbody, h⟩
            rw [not_and, not_and] at haddress
            by_cases hnil : q.recipientAddress = []
            · exact .inl hnil
            · exact .inr (by simpa using haddress hne hnil)

/-- The payload is the one before encryption with the key to unwrap, and the key
is agreed on or wrapped. -/
theorem withSessionKey_cases {index : Nat} {q : PrivateRequest} {p p₁ : ChatPayload} {key : Bytes}
    (h : withSessionKey kit w fresh index q p = some (p₁, key)) :
    (q.mode = .ecdh ∧ p₁ = p ∧ ∃ secret,
      kit.sharedSecret (w.privkeys.getD index []) q.recipientPubkey = some secret ∧
        kit.deriveChatKey secret p = some key) ∨
    (q.mode = .rsa ∧ key = fresh.sessionKey ∧ ∃ wrapped,
      kit.rsaEncrypt key q.recipientRsaPublicPem = some wrapped ∧
        p₁ = { p with wrappedKey := wrapped }) := by
  rw [withSessionKey] at h
  cases hmode : q.mode with
  | ecdh =>
      rw [hmode] at h
      obtain ⟨secret, hsecret, h⟩ := Option.bind_eq_some_iff.mp h
      obtain ⟨key', hkey, heq⟩ := Option.map_eq_some_iff.mp h
      cases heq
      exact .inl ⟨rfl, rfl, secret, hsecret, hkey⟩
  | rsa =>
      rw [hmode] at h
      obtain ⟨wrapped, hwrapped, heq⟩ := Option.map_eq_some_iff.mp h
      cases heq
      exact .inr ⟨rfl, rfl, wrapped, hwrapped, rfl⟩

/-- The payload that is made of a private one. -/
def sealedPayload (p : ChatPayload) (wrapped iv body authTag signature : Bytes) : ChatPayload :=
  { p with
    wrappedKey := wrapped
    iv := iv
    body := body
    authTag := authTag
    signature := signature }

section

variable (kit w fresh) (index : Nat) (q : PrivateRequest) (wrapped iv body authTag signature : Bytes)

theorem mode_sealed : (sealedPayload (privatePayload kit w fresh index q) wrapped iv body authTag
    signature).mode = q.mode := by
  rw [ChatPayload.mode, sealedPayload, privatePayload]
  cases q.mode <;> rfl

theorem encrypted_sealed : (sealedPayload (privatePayload kit w fresh index q) wrapped iv body
    authTag signature).encrypted = true := by
  have hflags : decide ((chatFlagSigned ||| chatFlagEncrypted) &&& chatFlagEncrypted ≠ 0) = true := by
    decide
  exact hflags

theorem sentBy_sealed : SentBy w index (sealedPayload (privatePayload kit w fresh index q) wrapped
    iv body authTag signature) := by
  have hflags : decide ((chatFlagSigned ||| chatFlagEncrypted) &&& chatFlagSigned ≠ 0) = true := by
    decide
  exact ⟨rfl, rfl, rfl, hflags⟩

end

theorem kdf_le (q : PrivateRequest) : (if q.mode = .ecdh then q.kdf.toByte else 0) ≤ 3 := by
  split
  · cases q.kdf <;> decide
  · decide

theorem mode_le (mode : EncryptionMode) : mode.toByte ≤ 1 := by cases mode <;> decide

/-- What a private message asks for is there. -/
theorem privateFields_sealed {index : Nat} {q : PrivateRequest} {wrapped body authTag signature : Bytes}
    {p : ChatPayload}
    (hp : p = sealedPayload (privatePayload kit w fresh index q) wrapped fresh.iv body authTag
      signature)
    (hrecipient : p.recipient ≠ []) (hiv : fresh.iv ≠ []) (htag : authTag ≠ [])
    (hpubkey : q.mode = .ecdh → q.recipientPubkey ≠ []) (hwrapped : q.mode = .rsa → wrapped ≠ [])
    (hchecked : q.recipientPubkey ≠ [] → checkAddress kit.toChatLib p.recipient q.recipientPubkey) :
    privateFieldsValid kit.toChatLib p = true ∧ transportFieldsValid kit.toChatLib p = true := by
  have hmode : p.mode = q.mode := hp ▸ mode_sealed kit w fresh index q _ _ _ _ _
  have hencrypted : p.encrypted = true := hp ▸ encrypted_sealed kit w fresh index q _ _ _ _ _
  have hkdf : p.kdfProfile ≤ 3 := hp ▸ kdf_le q
  have hcipher : p.cipherProfile ≤ 1 := hp ▸ mode_le q.mode
  have hkey : p.recipientPubkey = q.recipientPubkey := hp ▸ rfl
  have hiv' : p.iv = fresh.iv := hp ▸ rfl
  have htag' : p.authTag = authTag := hp ▸ rfl
  have hwrapped' : p.wrappedKey = wrapped := hp ▸ rfl
  have haddress : (decide (p.recipientPubkey = []) ||
      checkAddress kit.toChatLib p.recipient p.recipientPubkey) = true := by
    rw [hkey, Bool.or_eq_true, decide_eq_true_eq]
    exact (Classical.em _).imp id hchecked
  constructor
  · rw [privateFieldsValid, hencrypted, haddress, hmode, hkey, hiv', htag', hwrapped']
    simp only [Bool.and_eq_true, Bool.not_eq_true', Bool.and_eq_false_iff, Bool.or_eq_false_iff,
      decide_eq_false_iff_not, and_true, true_and]
    refine ⟨⟨⟨⟨?_, ?_⟩, ⟨hrecipient, hiv⟩, htag⟩, ?_⟩, ?_⟩
    · exact .inr (UInt8.not_lt.mpr hkdf)
    · exact .inr (UInt8.not_lt.mpr hcipher)
    · exact not_and_or.mp fun h => hpubkey h.1 h.2
    · exact not_and_or.mp fun h => hwrapped h.1 h.2
  · rw [transportFieldsValid, haddress]
    simp only [Bool.and_true]
    exact decide_eq_true hrecipient

/-- What was done is in the payload. -/
theorem Encrypts.payload {q : PrivateRequest} {p : ChatPayload} {index : Nat} {key : Bytes}
    (h : Encrypts kit w fresh q p index key) :
    ∃ wrapped body authTag signature,
      p = sealedPayload (privatePayload kit w fresh index q) wrapped fresh.iv body authTag signature ∧
        kit.aesGcmEncrypt (Content.serializeContent q.content) key p.buildChatAad fresh.iv =
          some (body, authTag) ∧
        signPayload kit w index (sealedPayload (privatePayload kit w fresh index q) wrapped fresh.iv
          body authTag []) = some p ∧
        ((q.mode = .ecdh ∧ wrapped = [] ∧ ∃ secret,
          kit.sharedSecret (w.privkeys.getD index []) q.recipientPubkey = some secret ∧
            kit.deriveChatKey secret (privatePayload kit w fresh index q) = some key) ∨
        (q.mode = .rsa ∧ key = fresh.sessionKey ∧
          kit.rsaEncrypt key q.recipientRsaPublicPem = some wrapped)) := by
  obtain ⟨p₁, body, authTag, hkey, hbody, hsign⟩ := h.sealed
  obtain ⟨signature, -, rfl⟩ := Option.map_eq_some_iff.mp hsign
  rcases withSessionKey_cases hkey with ⟨hmode, rfl, secret, hsecret, hderive⟩ |
    ⟨hmode, hsession, wrapped, hwrapped, rfl⟩
  · exact ⟨[], body, authTag, signature, rfl, hbody, hsign, .inl ⟨hmode, rfl, secret, hsecret, hderive⟩⟩
  · exact ⟨wrapped, body, authTag, signature, rfl, hbody, hsign, .inr ⟨hmode, hsession, hwrapped⟩⟩

/-- What a reader is shown of a payload of the current version. -/
def shown (lib : ChatLib) (p : ChatPayload) (decrypted : Bool) (content : ContentEnvelope) :
    ParsedMessage :=
  { legacy := false
    authenticated := true
    encrypted := p.encrypted
    decrypted := decrypted
    encryptionMode := p.mode
    senderAddress := p.sender
    recipientAddress := p.recipient
    channel := p.channel
    timestamp := p.timestamp
    nonce := p.nonce
    messageId := messageId lib p
    content := content }

theorem shown_eq {lib : ChatLib} {p : ChatPayload} {encrypted : Bool} (h : p.encrypted = encrypted)
    (decrypted : Bool) (content : ContentEnvelope) :
    shown lib p decrypted content =
      { legacy := false
        authenticated := true
        encrypted := encrypted
        decrypted := decrypted
        encryptionMode := p.mode
        senderAddress := p.sender
        recipientAddress := p.recipient
        channel := p.channel
        timestamp := p.timestamp
        nonce := p.nonce
        messageId := messageId lib p
        content := content } := by
  rw [shown, h]

/-- The reader has the key for which a private message was made. -/
def CanRead (kit : ChatKit) (KeyPair RsaPair : Bytes → Bytes → Prop) (q : PrivateRequest)
    (p : ChatPayload) (reader : ChatWallet) : Prop :=
  match q.mode with
  | .ecdh => kit.Keys KeyPair reader.toWallet ∧ q.recipientPubkey ∈ reader.pubkeys
  | .rsa =>
      RsaPair q.recipientRsaPublicPem reader.chatRsaPrivateKeyPem ∧
        reader.chatRsaPrivateKeyPem ≠ [] ∧
        ((walletIndexForAddress kit.toChatLib reader.toWallet p.recipient).isSome ∨
          q.recipientPubkey ≠ [] ∧ q.recipientPubkey ∈ reader.pubkeys)

/-- Neither the address nor the key of the recipient is in the wallet. -/
def Stranger (kit : ChatKit) (p : ChatPayload) (reader : ChatWallet) : Prop :=
  walletIndexForAddress kit.toChatLib reader.toWallet p.recipient = none ∧
    p.recipientPubkey ∉ reader.pubkeys

theorem walletIndexForPubkey_isSome {r : Wallet} {pubkey : Bytes} :
    (walletIndexForPubkey r pubkey).isSome ↔ pubkey ∈ r.pubkeys := by
  rw [walletIndexForPubkey, List.findIdx?_isSome, List.any_eq_true]
  constructor
  · rintro ⟨x, hx, heq⟩
    exact of_decide_eq_true heq ▸ hx
  · exact fun hmem => ⟨pubkey, hmem, decide_eq_true rfl⟩

/-- The key depends on nothing that is filled in after it is derived. -/
theorem deriveChatKey_sealed (kit : ChatKit) (secret : Bytes) {p : ChatPayload}
    (wrapped iv body authTag signature : Bytes) (hwrapped : wrapped = p.wrappedKey) :
    kit.deriveChatKey secret (sealedPayload p wrapped iv body authTag signature) =
      kit.deriveChatKey secret p := by
  have haad : (sealedPayload p wrapped iv body authTag signature).buildChatAad = p.buildChatAad := by
    rw [ChatPayload.buildChatAad, ChatPayload.buildChatAad, ChatPayload.header, ChatPayload.header,
      sealedPayload, hwrapped]
  rw [ChatKit.deriveChatKey, ChatKit.deriveChatKey, ChatKit.legacyChatKey, ChatKit.legacyChatKey,
    haad]
  rfl

theorem payloadKey_reader {q : PrivateRequest} {p : ChatPayload} {index : Nat} {key : Bytes}
    {reader : ChatWallet} (hkit : kit.Sound KeyPair RsaPair) (hw : kit.Keys KeyPair w)
    (h : Encrypts kit w fresh q p index key) (hrecipient : p.recipient ≠ [])
    (hreader : CanRead kit KeyPair RsaPair q p reader) :
    payloadKey kit.toChatLib reader p = some (some key) := by
  obtain ⟨wrapped, body, authTag, signature, hp, -, -, hcase⟩ := h.payload
  have hmode : p.mode = q.mode := hp ▸ mode_sealed kit w fresh index q _ _ _ _ _
  have hpubkey : p.recipientPubkey = q.recipientPubkey := hp ▸ rfl
  rw [CanRead] at hreader
  rw [payloadKey, hmode]
  rcases hcase with ⟨hecdh, rfl, secret, hsecret, hderive⟩ | ⟨hrsa, hsession, hwrapped⟩
  · rw [hecdh] at hreader ⊢
    obtain ⟨hkeys, hmem⟩ := hreader
    obtain ⟨j, hj⟩ := Option.isSome_iff_exists.mp (walletIndexForPubkey_isSome.mpr hmem)
    obtain ⟨hlt, heq, -⟩ := List.findIdx?_eq_some_iff_getElem.mp hj
    have hfound : reader.pubkeys.getD j [] = q.recipientPubkey := by
      rw [List.getD_eq_getElem?_getD, List.getElem?_eq_getElem hlt, Option.getD_some]
      exact of_decide_eq_true heq
    have hpair := hkeys.pair j (hkeys.pubkeys_length ▸ hlt)
    have hsender := hw.pair index h.index_lt
    have hshared := hkit.agrees hpair hsender
    have hderived : kit.deriveChatKey secret p = some key := by
      rw [hp, ← hderive]
      exact deriveChatKey_sealed kit secret [] fresh.iv body authTag signature rfl
    have hsenderPubkey : p.senderPubkey = w.pubkeys.getD index [] := hp ▸ rfl
    rw [hfound, hsecret] at hshared
    rw [hpubkey, hj, hsenderPubkey]
    change (kit.sharedSecret _ _).bind _ = _
    rw [hshared, Option.bind_some]
    exact congrArg (Option.map some) hderived
  · rw [hrsa] at hreader ⊢
    obtain ⟨hpair, hpem, howns⟩ := hreader
    have hwrappedKey : p.wrappedKey = wrapped := hp ▸ rfl
    have hunwrap : kit.rsaUnwrapSessionKey wrapped reader.chatRsaPrivateKeyPem = some key := by
      have hlength : ¬ key.length ≠ 32 := not_not.mpr (hsession ▸ fresh.sessionKey_length)
      rw [ChatKit.rsaUnwrapSessionKey, hkit.unwraps hpair hwrapped, Option.bind_some,
        if_neg hlength]
    have howner : (p.recipient ≠ [] ∧
          (walletIndexForAddress kit.toChatLib reader.toWallet p.recipient).isSome) ∨
        (p.recipientPubkey ≠ [] ∧
          (walletIndexForPubkey reader.toWallet p.recipientPubkey).isSome) := by
      rw [hpubkey, walletIndexForPubkey_isSome]
      exact howns.imp (fun haddress => ⟨hrecipient, haddress⟩) id
    simp only
    rw [if_neg (not_or.mpr ⟨not_not.mpr howner, hpem⟩), hwrappedKey]
    exact congrArg (Option.map some) hunwrap

theorem payloadKey_stranger {p : ChatPayload} {reader : ChatWallet}
    (h : Stranger kit p reader) : payloadKey kit.toChatLib reader p = some none := by
  obtain ⟨haddress, hmem⟩ := h
  have hpubkey : walletIndexForPubkey reader.toWallet p.recipientPubkey = none := by
    rw [← Option.not_isSome_iff_eq_none, walletIndexForPubkey_isSome]
    exact hmem
  rw [payloadKey, haddress, hpubkey]
  cases p.mode with
  | ecdh => rfl
  | rsa =>
      refine if_pos (.inl ?_)
      rintro (⟨-, hsome⟩ | ⟨-, hsome⟩)
      · cases hsome
      · cases hsome

/-- How a payload is parsed whose checks leave its time only. -/
theorem parse_current {lib : ChatLib} {p : ChatPayload} (reader : Option ChatWallet) (now : Int)
    (hversion : p.version = 4)
    (hvalid : validateCommonPayload lib now p = timestampAllowed now p.timestamp) :
    parseChatPayload lib reader now p =
      if timestampAllowed now p.timestamp then
        if p.encrypted then
          match reader with
          | none => some (shown lib p false emptyContent)
          | some w =>
              match payloadKey lib w p with
              | none => none
              | some none => some (shown lib p false emptyContent)
              | some (some key) =>
                  ((lib.aesGcmDecrypt p.body key p.buildChatAad p.iv p.authTag).bind
                    lib.deserializeContent).map (shown lib p true)
        else (lib.deserializeContent p.body).map (shown lib p false)
      else none := by
  have hcurrent : ¬ p.version < 2 := by rw [hversion]; decide
  rw [parseChatPayload]
  simp only
  rw [if_neg hcurrent, hvalid]
  cases timestampAllowed now p.timestamp with
  | false => rfl
  | true =>
      cases hencrypted : p.encrypted with
      | false =>
          exact congrArg (fun f => Option.map f (lib.deserializeContent p.body))
            (funext fun content => (shown_eq hencrypted false content).symm)
      | true =>
          have hsealed := @shown_eq lib p true hencrypted false emptyContent
          have hopened := funext fun content => (@shown_eq lib p true hencrypted true content).symm
          cases reader with
          | none => exact congrArg some hsealed.symm
          | some w =>
              cases hkey : payloadKey lib w p with
              | none => simp only [hkey]; rfl
              | some key =>
                  cases key with
                  | none => simp only [hkey]; exact congrArg some hsealed.symm
                  | some key =>
                      simp only [hkey, Option.map_bind]
                      refine congrArg (Option.bind _) (funext fun plaintext => ?_)
                      exact congrArg (fun f => Option.map f (lib.deserializeContent plaintext)) hopened

theorem parse_invalid {lib : ChatLib} {p : ChatPayload} (reader : Option ChatWallet) (now : Int)
    (hversion : p.version = 4) (hinvalid : validateCommonPayload lib now p = false) :
    parseChatPayload lib reader now p = none := by
  have hcurrent : ¬ p.version < 2 := by rw [hversion]; decide
  rw [parseChatPayload]
  simp only
  rw [if_neg hcurrent, hinvalid]
  rfl

theorem deserializeContent_toChatLib (kit : ChatKit) {content : Content.ContentEnvelope}
    (hversion : 4 ≤ content.version) (hcontent : (Content.serializeContent content).length < 2 ^ 64) :
    kit.toChatLib.deserializeContent (Content.serializeContent content) =
      some (envelopeOf content) :=
  congrArg (Option.map envelopeOf) (Content.deserializeContent_serialize hversion hcontent)

theorem deserialize_current {p : ChatPayload} (hversion : p.version = 4)
    (hsize : p.serialize.length < 2 ^ 64) : ChatPayload.deserialize p.serialize = some p := by
  have htwo : 2 ≤ p.version := by rw [hversion]; decide
  have hfour : 4 ≤ p.version := by rw [hversion]; decide
  rw [ChatPayload.deserialize_serialize htwo hsize, ChatPayload.profiled_eq hfour]

/-- A private message is what its sender wrote to whoever has the key that it is
made for, in time, and tells a stranger nothing of the content; and it comes
out of the wire as it went in. -/
theorem private_chat_read {q : PrivateRequest} {p : ChatPayload}
    (hkit : kit.Sound KeyPair RsaPair) (hw : kit.Keys KeyPair w)
    (hmake : makeEncryptedPrivateChat kit w fresh q = some p) (hrecipient : p.recipient ≠ [])
    (hversion : 4 ≤ q.content.version)
    (hcontent : (Content.serializeContent q.content).length < 2 ^ 64)
    (hsize : p.serialize.length < 2 ^ 64) :
    ChatPayload.deserialize p.serialize = some p ∧
      (∀ now reader, CanRead kit KeyPair RsaPair q p reader →
        parseChatPayload kit.toChatLib (some reader) now p =
          if timestampAllowed now p.timestamp then
            some (shown kit.toChatLib p true (envelopeOf q.content))
          else none) ∧
      ∀ now reader, Stranger kit p reader →
        parseChatPayload kit.toChatLib (some reader) now p =
          if timestampAllowed now p.timestamp then some (shown kit.toChatLib p false emptyContent)
          else none := by
  obtain ⟨index, key, h⟩ := encrypts hmake
  obtain ⟨wrapped, body, authTag, signature, hp, hbody, hsign, hcase⟩ := h.payload
  obtain ⟨hdecrypt, htag⟩ := hkit.decrypts hbody
  have hcurrent : p.version = 4 := hp ▸ rfl
  have hencrypted : p.encrypted = true := hp ▸ encrypted_sealed kit w fresh index q _ _ _ _ _
  have hiv : fresh.iv ≠ [] := List.ne_nil_of_length_pos (by rw [fresh.iv_length]; decide)
  have hwrapped : q.mode = .rsa → wrapped ≠ [] := by
    intro hrsa
    rcases hcase with ⟨hecdh, -⟩ | ⟨-, -, hencrypt⟩
    · rw [hrsa] at hecdh
      cases hecdh
    · exact hkit.wraps hencrypt
  have hchecked : q.recipientPubkey ≠ [] →
      checkAddress kit.toChatLib p.recipient q.recipientPubkey = true := by
    intro hne
    have hname : p.recipient = if q.recipientAddress = [] ∧ q.recipientPubkey ≠ [] then
        kit.pubkeyToAddress q.recipientPubkey else q.recipientAddress := hp ▸ rfl
    by_cases hnil : q.recipientAddress = []
    · rw [hname, if_pos ⟨hnil, hne⟩]
      exact hkit.names q.recipientPubkey
    · rw [hname, if_neg fun hand => hnil hand.1]
      exact (h.checked hne).resolve_left hnil
  obtain ⟨hprivate, htransport⟩ :=
    privateFields_sealed hp hrecipient hiv htag h.has_pubkey hwrapped hchecked
  have hvalid : ∀ now, validateCommonPayload kit.toChatLib now p =
      timestampAllowed now p.timestamp := by
    intro now
    refine validate_signed hkit hw h.index_lt (sentBy_sealed kit w fresh index q _ _ _ _ _) hsign now ?_
    rw [hprivate, htransport]
    split_ifs <;> rfl
  have hread := deserializeContent_toChatLib kit hversion hcontent
  refine ⟨?_, fun now reader hreader => ?_, fun now reader hreader => ?_⟩
  · exact deserialize_current hcurrent hsize
  · have hopen : kit.toChatLib.aesGcmDecrypt p.body key p.buildChatAad p.iv p.authTag =
        some (Content.serializeContent q.content) := by
      have hbody' : p.body = body := hp ▸ rfl
      have hiv' : p.iv = fresh.iv := hp ▸ rfl
      have htag' : p.authTag = authTag := hp ▸ rfl
      rw [hbody', hiv', htag']
      exact hdecrypt
    rw [parse_current (some reader) now hcurrent (hvalid now), hencrypted]
    simp only [payloadKey_reader hkit hw h hrecipient hreader, hopen, Option.bind_some, hread,
      Option.map_some, if_true]
  · rw [parse_current (some reader) now hcurrent (hvalid now), hencrypted]
    simp only [payloadKey_stranger hreader, if_true]

/-! ## Signed messages -/

theorem encrypted_signed : decide (chatFlagSigned &&& chatFlagEncrypted ≠ 0) = false := by decide

theorem signed_signed : decide (chatFlagSigned &&& chatFlagSigned ≠ 0) = true := by decide

theorem public_chat_read {senderAddress channel : Bytes} {content : Content.ContentEnvelope}
    {p : ChatPayload} (hkit : kit.Sound KeyPair RsaPair) (hw : kit.Keys KeyPair w)
    (hmake : makeSignedPublicChat kit w fresh senderAddress channel content = some p)
    (hversion : 4 ≤ content.version)
    (hcontent : (Content.serializeContent content).length < 2 ^ 64) (now : Int)
    (reader : Option ChatWallet) :
    parseChatPayload kit.toChatLib reader now p =
      if timestampAllowed now p.timestamp then
        some (shown kit.toChatLib p false (envelopeOf content))
      else none := by
  obtain ⟨index, hindex, hsign⟩ := Option.bind_eq_some_iff.mp hmake
  obtain ⟨signature, -, hp⟩ := Option.map_eq_some_iff.mp hsign
  have hcurrent : p.version = 4 := hp ▸ rfl
  have htype : p.chatType = chatTypePublic := hp ▸ rfl
  have hbody : p.body = Content.serializeContent content := hp ▸ rfl
  have hencrypted : p.encrypted = false := hp ▸ encrypted_signed
  have hsent : SentBy w index { senderPayload w fresh index with
      channel := channel, body := Content.serializeContent content } :=
    ⟨rfl, rfl, rfl, signed_signed⟩
  have hvalid := validate_signed hkit hw (resolveSenderIndex_lt hindex) hsent hsign now
    (if_pos htype)
  rw [parse_current reader now hcurrent hvalid, hencrypted, hbody,
    deserializeContent_toChatLib kit hversion hcontent]
  rfl

theorem transport_chat_read {senderAddress recipientAddress recipientPubkey : Bytes}
    {content : Content.ContentEnvelope} {chatType : UInt8} {p : ChatPayload}
    (hkit : kit.Sound KeyPair RsaPair) (hw : kit.Keys KeyPair w)
    (hmake : makeSignedTransportChat kit w fresh senderAddress recipientAddress recipientPubkey
      content chatType = some p)
    (hversion : 4 ≤ content.version)
    (hcontent : (Content.serializeContent content).length < 2 ^ 64) (now : Int)
    (reader : Option ChatWallet) :
    parseChatPayload kit.toChatLib reader now p =
      if (chatType = chatTypePublic ∨ chatType = chatTypeVoiceFrame) ∧
          timestampAllowed now p.timestamp then
        some (shown kit.toChatLib p false (envelopeOf content))
      else none := by
  rw [makeSignedTransportChat] at hmake
  split at hmake
  · cases hmake
  · next hrecipient =>
      split at hmake
      · cases hmake
      · next hrefused =>
          obtain ⟨index, hindex, hsign⟩ := Option.bind_eq_some_iff.mp hmake
          obtain ⟨signature, -, hp⟩ := Option.map_eq_some_iff.mp hsign
          have hcurrent : p.version = 4 := hp ▸ rfl
          have htype : p.chatType = chatType := hp ▸ rfl
          have hbody : p.body = Content.serializeContent content := hp ▸ rfl
          have hencrypted : p.encrypted = false := hp ▸ encrypted_signed
          have hname : p.recipient = recipientAddress := hp ▸ rfl
          have hpubkey : p.recipientPubkey = recipientPubkey := hp ▸ rfl
          have hsent : SentBy w index { senderPayload w fresh index with
              chatType := chatType
              recipient := recipientAddress
              recipientPubkey := recipientPubkey
              body := Content.serializeContent content } := ⟨rfl, rfl, rfl, signed_signed⟩
          have htransport : transportFieldsValid kit.toChatLib p = true := by
            rw [transportFieldsValid, hname, hpubkey, Bool.and_eq_true, Bool.or_eq_true,
              decide_eq_true_eq, decide_eq_true_eq]
            refine ⟨hrecipient, (Classical.em _).imp id fun hne => ?_⟩
            exact Bool.not_eq_false _ ▸ fun hfalse => hrefused ⟨hne, hfalse⟩
          by_cases hsigned : chatType = chatTypePublic ∨ chatType = chatTypeVoiceFrame
          · have hfields : (if p.chatType = chatTypePublic then true
                else if p.chatType = chatTypeVoiceFrame then transportFieldsValid kit.toChatLib p
                else privateFieldsValid kit.toChatLib p) = true := by
              rw [htype, htransport]
              rcases hsigned with rfl | rfl
              · exact if_pos rfl
              · rfl
            have hvalid := validate_signed hkit hw (resolveSenderIndex_lt hindex) hsent hsign now
              hfields
            rw [parse_current reader now hcurrent hvalid, hencrypted, hbody,
              deserializeContent_toChatLib kit hversion hcontent]
            simp only [hsigned, true_and]
            rfl
          · have hinvalid : validateCommonPayload kit.toChatLib now p = false := by
              rw [not_or] at hsigned
              have hfields : privateFieldsValid kit.toChatLib p = false := by
                rw [privateFieldsValid, hencrypted]
                simp only [Bool.false_and]
              rw [validateCommonPayload, htype, if_neg hsigned.1, if_neg hsigned.2, hfields,
                Bool.and_false]
            rw [if_neg fun hboth => hsigned hboth.1]
            exact parse_invalid reader now hcurrent hinvalid

/-- A signed message is shown in time to every reader, with a wallet or without,
if it is of a type that need not be encrypted. -/
theorem signed_chat_read {content : Content.ContentEnvelope} (hkit : kit.Sound KeyPair RsaPair)
    (hw : kit.Keys KeyPair w) (hversion : 4 ≤ content.version)
    (hcontent : (Content.serializeContent content).length < 2 ^ 64) :
    (∀ senderAddress channel p,
      makeSignedPublicChat kit w fresh senderAddress channel content = some p → ∀ now reader,
        parseChatPayload kit.toChatLib reader now p =
          if timestampAllowed now p.timestamp then
            some (shown kit.toChatLib p false (envelopeOf content))
          else none) ∧
      ∀ senderAddress recipientAddress recipientPubkey chatType p,
        makeSignedTransportChat kit w fresh senderAddress recipientAddress recipientPubkey content
          chatType = some p → ∀ now reader,
        parseChatPayload kit.toChatLib reader now p =
          if (chatType = chatTypePublic ∨ chatType = chatTypeVoiceFrame) ∧
              timestampAllowed now p.timestamp then
            some (shown kit.toChatLib p false (envelopeOf content))
          else none :=
  ⟨fun _ _ _ hmake now reader =>
      public_chat_read hkit hw hmake hversion hcontent now reader,
    fun _ _ _ _ _ hmake now reader =>
      transport_chat_read hkit hw hmake hversion hcontent now reader⟩

/-! ## Two parties -/

/-- A kit in which a key signs with itself, two keys agree on their sum, and a
ciphertext is its plaintext. -/
def openKit : ChatKit where
  sha3_512 _ := 0
  verifySignature _ signature pubkey := signature = pubkey
  pubkeyToAddress pubkey := pubkey
  addressesEqual a b := a = b
  signHash _ privkey := some privkey
  sharedSecret privkey pubkey := some (List.zipWith (· + ·) privkey pubkey)
  providerKey _ secret salt := some (secret ++ salt)
  rsaEncrypt key _ := some (1 :: key)
  rsaDecrypt wrapped _ := some wrapped.tail
  aesGcmEncrypt plaintext _ _ _ := some (plaintext, [1])
  aesGcmDecrypt body _ _ _ _ := some body

def OpenPair (privkey pubkey : Bytes) : Prop := privkey = pubkey ∧ pubkey ≠ []

theorem sound_openKit : openKit.Sound OpenPair fun _ _ => True where
  verifies := by
    rintro priv _ h _ ⟨rfl, hne⟩ hsign
    cases hsign
    exact ⟨decide_eq_true rfl, hne⟩
  agrees := by
    rintro priv _ priv' _ ⟨rfl, -⟩ ⟨rfl, -⟩
    exact congrArg some (List.zipWith_comm_of_comm fun x y => UInt8.add_comm x y)
  unwraps := by
    intro key _ _ wrapped _ hwrapped
    cases hwrapped
    rfl
  wraps := by
    intro key _ wrapped hwrapped
    cases hwrapped
    exact List.cons_ne_nil _ _
  decrypts := by
    intro plaintext key aad iv body authTag hbody
    cases hbody
    exact ⟨rfl, List.cons_ne_nil _ _⟩
  names := fun _ => decide_eq_true rfl

/-- A wallet with one key. -/
def oneKeyWallet (key : UInt8) : ChatWallet where
  address := [key]
  privkey := [key]
  addresses := [[key]]
  privkeys := [[key]]
  pubkeys := [[key]]
  chatRsaPrivateKeyPem := []
  chatRsaPublicKeyPem := []

theorem keys_oneKeyWallet (key : UInt8) : openKit.Keys OpenPair (oneKeyWallet key).toWallet where
  pubkeys_length := rfl
  pair := by
    intro i hi
    obtain rfl := Nat.lt_one_iff.mp hi
    exact ⟨rfl, List.cons_ne_nil _ _⟩
  address := by
    intro i hi
    obtain rfl := Nat.lt_one_iff.mp hi
    exact decide_eq_true rfl
  named := by
    intro i hi
    obtain rfl := Nat.lt_one_iff.mp hi
    exact ⟨List.cons_ne_nil _ _, List.cons_ne_nil _ _⟩

theorem length_twelve : (List.replicate 12 (5 : UInt8)).length = 12 := List.length_replicate

theorem length_thirtyTwo : (List.replicate 32 (6 : UInt8)).length = 32 := List.length_replicate

def exampleFresh : Fresh where
  now := 1000
  nonce := 3
  iv := List.replicate 12 5
  sessionKey := List.replicate 32 6
  iv_length := length_twelve
  sessionKey_length := length_thirtyTwo

/-- From the first key to the second. -/
def exampleRequest : PrivateRequest where
  senderAddress := [1]
  recipientAddress := []
  recipientPubkey := [2]
  content := Content.makeTextContent [72, 105]
  kdf := .argon2id
  mode := .ecdh
  recipientRsaPublicPem := []
  chatType := chatTypePrivate

def exampleSealed : ChatPayload :=
  sealedPayload (privatePayload openKit (oneKeyWallet 1).toWallet exampleFresh 0 exampleRequest) []
    exampleFresh.iv (Content.serializeContent exampleRequest.content) [1] [1]

theorem private_chat_read_two :
    parseChatPayload openKit.toChatLib (some (oneKeyWallet 2)) 1060 exampleSealed =
      some (shown openKit.toChatLib exampleSealed true (envelopeOf exampleRequest.content)) :=
  ((private_chat_read sound_openKit (keys_oneKeyWallet 1)
    (show makeEncryptedPrivateChat openKit (oneKeyWallet 1).toWallet exampleFresh exampleRequest =
      some exampleSealed from rfl) (by decide) (by decide) (by decide) (by decide)).2.1 1060
    (oneKeyWallet 2) ⟨keys_oneKeyWallet 2, by decide⟩).trans (if_pos (by decide))

/-- From the first key to a channel. -/
def exampleSigned : ChatPayload :=
  { senderPayload (oneKeyWallet 1).toWallet exampleFresh 0 with
    channel := [4]
    body := Content.serializeContent (Content.makeTextContent [72, 105])
    signature := [1] }

theorem signed_chat_read_two :
    parseChatPayload openKit.toChatLib none 1060 exampleSigned =
      some (shown openKit.toChatLib exampleSigned false
        (envelopeOf (Content.makeTextContent [72, 105]))) :=
  ((signed_chat_read sound_openKit (keys_oneKeyWallet 1) (by decide) (by decide)).1 [1] [4]
    exampleSigned
    (show makeSignedPublicChat openKit (oneKeyWallet 1).toWallet exampleFresh [1] [4]
      (Content.makeTextContent [72, 105]) = some exampleSigned from rfl) 1060 none).trans
    (if_pos (by decide))

end Chat

end Cryptex
