import Cryptex.Network.MailImport

/-!
# Chat payloads on the wire

A payload is read as it was written, in the fields that its version has, and
the string that is signed determines what is written beside the signature.
-/

namespace Cryptex

open Codec Voice

namespace Chat

/-! ## Fields -/

theorem length_le_writeBytes (b : Bytes) : b.length ≤ (writeBytes b).length :=
  Cryptex.length_le_writeBytes b

/-- Where one string ends is determined by its bytes. -/
theorem writeBytes_append_inj {a b r s : Bytes} (ha : a.length < 2 ^ 64) (hb : b.length < 2 ^ 64)
    (h : writeBytes a ++ r = writeBytes b ++ s) : a = b ∧ r = s := by
  have hread : readString (writeBytes a ++ r) = some (a, r) := readString_write ha r
  have hread' : readString (writeBytes b ++ s) = some (b, s) := readString_write hb s
  rw [h, hread'] at hread
  obtain ⟨hba, hsr⟩ := Prod.mk.inj (Option.some.inj hread)
  exact ⟨hba.symm, hsr.symm⟩

theorem readVarint_length {n : Nat} {data rest : Bytes} (h : readVarint data = some (n, rest)) :
    (writeVarint n).length + rest.length ≤ data.length := by
  cases data with
  | nil => cases h
  | cons first data =>
      have hint : ∀ {width : Nat}, readInt width data = some (n, rest) →
          data.length = width + rest.length := by
        intro width hread
        rw [readInt_exact hread, List.length_append, length_writeInt]
      rw [length_writeVarint, List.length_cons]
      rw [readVarint] at h
      split at h
      · next hfirst =>
          obtain ⟨rfl, rfl⟩ := Prod.mk.inj (Option.some.inj h)
          have hsmall : first.toNat < 0xFD := UInt8.lt_iff_toNat_lt.mp hfirst
          rw [if_pos hsmall]
          omega
      · split at h
        · have hlt := readInt_lt h
          have hlength := hint h
          split_ifs <;> omega
        · split at h
          · have hlt := readInt_lt h
            have hlength := hint h
            split_ifs <;> omega
          · have hlength := hint h
            split_ifs <;> omega

theorem readString_length {b data rest : Bytes} (h : readString data = some (b, rest)) :
    (writeBytes b).length + rest.length ≤ data.length := by
  obtain ⟨⟨v, r⟩, hread, hv⟩ := Option.map_eq_some_iff.mp h
  obtain ⟨rfl, rfl⟩ := Prod.mk.inj hv
  unfold readBytes at hread
  split at hread
  · cases hread
  · next len tail hlen =>
      split at hread
      · cases hread
      · next hfits =>
          have hvarint := readVarint_length hlen
          cases hread
          rw [writeBytes, List.length_append, List.length_take, List.length_drop,
            Nat.min_eq_left (by omega)]
          omega

theorem readU64_length {value : UInt64} {data rest : Bytes}
    (h : readU64 data = some (value, rest)) :
    (writeU64 value).length + rest.length = data.length := by
  obtain ⟨⟨n, r⟩, hread, hn⟩ := Option.map_eq_some_iff.mp h
  obtain ⟨-, rfl⟩ := Prod.mk.inj hn
  rw [readInt_exact hread, List.length_append, writeU64, length_writeInt, length_writeInt]

theorem readU8_length {b : UInt8} {data rest : Bytes} (h : readU8 data = some (b, rest)) :
    1 + rest.length = data.length := by
  cases data with
  | nil => cases h
  | cons first data =>
      obtain ⟨-, rfl⟩ := Prod.mk.inj (Option.some.inj h)
      rw [List.length_cons, Nat.add_comm]

/-- A byte that is there on a condition. -/
theorem optional_append_inj {has : Prop} [Decidable has] {a b : UInt8} {r s : Bytes}
    (h : (if has then [a] else []) ++ r = (if has then [b] else []) ++ s) :
    (if has then a else 0) = (if has then b else 0) ∧ r = s := by
  split at h
  · next hhas =>
      rw [if_pos hhas, if_pos hhas]
      exact List.cons.inj h
  · next hhas =>
      rw [if_neg hhas, if_neg hhas]
      exact ⟨rfl, h⟩

namespace ChatPayload

variable {p q : ChatPayload}

/-! ## Sizes -/

/-- The strings of a payload that are signed have a size. -/
structure Sized (p : ChatPayload) : Prop where
  sender : p.sender.length < 2 ^ 64
  senderPubkey : p.senderPubkey.length < 2 ^ 64
  channel : p.channel.length < 2 ^ 64
  recipient : p.recipient.length < 2 ^ 64
  recipientPubkey : p.recipientPubkey.length < 2 ^ 64
  wrappedKey : p.wrappedKey.length < 2 ^ 64
  body : p.body.length < 2 ^ 64
  iv : p.iv.length < 2 ^ 64
  authTag : p.authTag.length < 2 ^ 64

/-- They have one if they fit into a vector together. -/
theorem sized_of_header {n : Nat}
    (h : p.header.length + (p.body.length + (p.iv.length + p.authTag.length)) ≤ n)
    (hn : n < 2 ^ 64) : p.Sized := by
  have hsender := length_le_writeBytes p.sender
  have hsenderPubkey := length_le_writeBytes p.senderPubkey
  have hchannel := length_le_writeBytes p.channel
  have hrecipient := length_le_writeBytes p.recipient
  have hrecipientPubkey := length_le_writeBytes p.recipientPubkey
  have hwrappedKey := length_le_writeBytes p.wrappedKey
  rw [header] at h
  simp only [List.length_append] at h
  constructor <;> omega

theorem sized_of_signed (h : p.buildSignaturePayload.length < 2 ^ 64) : p.Sized := by
  have hiv := length_le_writeBytes p.iv
  have hbody := length_le_writeBytes p.body
  have hauthTag := length_le_writeBytes p.authTag
  refine sized_of_header (n := p.buildSignaturePayload.length) ?_ h
  rw [buildSignaturePayload, buildChatAad]
  simp only [List.length_append]
  omega

/-! ## What a version has -/

/-- A payload with the profiles that its version has. -/
def profiled (p : ChatPayload) : ChatPayload :=
  { p with
    kdfProfile := if p.version ≥ 3 then p.kdfProfile else 0
    cipherProfile := if p.version ≥ 4 then p.cipherProfile else 0 }

theorem profiled_eq (h : 4 ≤ p.version) : p.profiled = p := by
  have h₃ : p.version ≥ 3 := by grind
  rw [profiled, if_pos h₃, if_pos h]

/-- The fields before the body. -/
def covering (p : ChatPayload) : ChatPayload :=
  { p.profiled with body := [], iv := [], authTag := [], signature := [] }

/-- Equal bytes before the body come from equal fields. -/
theorem header_append_inj {r s : Bytes} (hp : p.Sized) (hq : q.Sized)
    (h : p.header ++ r = q.header ++ s) : p.covering = q.covering ∧ r = s := by
  rw [header, header] at h
  simp only [List.append_assoc, List.cons_append, List.nil_append] at h
  obtain ⟨hversion, h⟩ := List.cons.inj h
  obtain ⟨htype, h⟩ := List.cons.inj h
  obtain ⟨hflags, h⟩ := List.cons.inj h
  rw [← hversion] at h
  obtain ⟨hkdf, h⟩ := optional_append_inj h
  obtain ⟨hcipher, h⟩ := optional_append_inj h
  obtain ⟨htimestamp, h⟩ := RoundTrip.append_inj readU64_write h
  obtain ⟨hnonce, h⟩ := RoundTrip.append_inj readU64_write h
  obtain ⟨hsender, h⟩ := writeBytes_append_inj hp.sender hq.sender h
  obtain ⟨hsenderPubkey, h⟩ := writeBytes_append_inj hp.senderPubkey hq.senderPubkey h
  obtain ⟨hchannel, h⟩ := writeBytes_append_inj hp.channel hq.channel h
  obtain ⟨hrecipient, h⟩ := writeBytes_append_inj hp.recipient hq.recipient h
  obtain ⟨hrecipientPubkey, h⟩ := writeBytes_append_inj hp.recipientPubkey hq.recipientPubkey h
  obtain ⟨hwrappedKey, h⟩ := writeBytes_append_inj hp.wrappedKey hq.wrappedKey h
  refine ⟨?_, h⟩
  rw [covering, covering, profiled, profiled, ChatPayload.mk.injEq, ← hversion]
  exact ⟨rfl, htype, hflags, hkdf, hcipher, htimestamp, hnonce, hsender, hsenderPubkey, hchannel,
    hrecipient, hrecipientPubkey, hwrappedKey, rfl, rfl, rfl, rfl⟩

/-! ## Signatures -/

/-- The string that is signed determines the fields that the version has. -/
theorem eq_of_signed (hsize : p.buildSignaturePayload.length < 2 ^ 64)
    (h : p.buildSignaturePayload = q.buildSignaturePayload) :
    { p.profiled with signature := [] } = { q.profiled with signature := [] } := by
  have hp := sized_of_signed hsize
  have hq := sized_of_signed (h ▸ hsize)
  rw [buildSignaturePayload, buildSignaturePayload, buildChatAad, buildChatAad] at h
  simp only [List.append_assoc] at h
  obtain ⟨hcovering, h⟩ := header_append_inj hp hq h
  obtain ⟨hiv, h⟩ := writeBytes_append_inj hp.iv hq.iv h
  obtain ⟨hbody, h⟩ := writeBytes_append_inj hp.body hq.body h
  rw [← List.append_nil (writeBytes p.authTag), ← List.append_nil (writeBytes q.authTag)] at h
  obtain ⟨hauthTag, -⟩ := writeBytes_append_inj hp.authTag hq.authTag h
  have hfill : ∀ p : ChatPayload, { p.profiled with signature := [] } =
      { p.covering with body := p.body, iv := p.iv, authTag := p.authTag } := fun _ => rfl
  rw [hfill, hfill, hcovering, hiv, hbody, hauthTag]

/-- Two payloads of version 4 that are signed by one string differ in nothing
but the signature, and payloads of different versions are signed by different
strings. -/
theorem signature_covers :
    (∀ p q : ChatPayload, p.buildSignaturePayload.length < 2 ^ 64 → 4 ≤ p.version →
      4 ≤ q.version → p.buildSignaturePayload = q.buildSignaturePayload →
      { p with signature := q.signature } = q) ∧
    ∀ p q : ChatPayload, 2 ≤ p.version → 2 ≤ q.version → p.version ≠ q.version →
      p.buildSignaturePayload ≠ q.buildSignaturePayload := by
  refine ⟨fun p q hsize hp hq h => ?_, fun p q _ _ hne h => hne ?_⟩
  · have heq := eq_of_signed hsize h
    rw [profiled_eq hp, profiled_eq hq] at heq
    calc { p with signature := q.signature }
        = { { p with signature := [] } with signature := q.signature } := rfl
      _ = { { q with signature := [] } with signature := q.signature } := by rw [heq]
      _ = q := rfl
  · exact (List.cons.inj h).1

/-! ## Round trip -/

theorem sized_of_serialize (hversion : 2 ≤ p.version) (h : p.serialize.length < 2 ^ 64) :
    p.Sized ∧ p.signature.length < 2 ^ 64 := by
  have hbody := length_le_writeBytes p.body
  have hiv := length_le_writeBytes p.iv
  have hauthTag := length_le_writeBytes p.authTag
  have hsignature := length_le_writeBytes p.signature
  rw [serialize, if_neg (UInt8.not_lt.mpr hversion)] at h
  simp only [List.length_append] at h
  exact ⟨sized_of_header (by omega) h, by omega⟩

/-- A byte that is there on a condition is read on the same condition. -/
theorem optional_bind {α : Type} (has : Prop) [Decidable has] (b : UInt8) (rest : Bytes)
    (f : UInt8 × Bytes → Option α) :
    (if has then readU8 ((if has then [b] else []) ++ rest) >>= f
      else f (0, (if has then [b] else []) ++ rest)) = f (if has then b else 0, rest) := by
  split <;> rfl

theorem optional_bind_eq_some {α : Type} {has : Prop} [Decidable has] {data : Bytes} {r : α}
    {f : UInt8 × Bytes → Option α}
    (h : (if has then readU8 data >>= f else f (0, data)) = some r) :
    ∃ b rest, (if has then [b] else []).length + rest.length = data.length ∧
      f (b, rest) = some r := by
  split at h
  · next hhas =>
      obtain ⟨⟨b, rest⟩, hread, h⟩ := Option.bind_eq_some_iff.mp h
      refine ⟨b, rest, ?_, h⟩
      rw [if_pos hhas]
      exact readU8_length hread
  · next hhas =>
      refine ⟨0, data, ?_, h⟩
      rw [if_neg hhas, List.length_nil, Nat.zero_add]

/-- A payload of version 2 or later is read in the fields of its version. -/
theorem deserialize_serialize (hversion : 2 ≤ p.version) (h : p.serialize.length < 2 ^ 64) :
    deserialize p.serialize = some p.profiled := by
  obtain ⟨hsized, hsignature⟩ := sized_of_serialize hversion h
  have hfirst : ¬ p.version ≤ 1 := by grind
  have hstring : ∀ {b : Bytes} (rest : Bytes), b.length < 2 ^ 64 →
      readString (writeBytes b ++ rest) = some (b, rest) := fun rest hb => readString_write hb rest
  rw [serialize, if_neg (UInt8.not_lt.mpr hversion), header]
  simp only [List.append_assoc, List.cons_append, List.nil_append]
  rw [deserialize, if_neg hfirst, ← List.append_nil (writeBytes p.signature)]
  refine (bind_of_eq (readU8_cons _ _) _).trans ?_
  refine (bind_of_eq (readU8_cons _ _) _).trans ?_
  refine (optional_bind (p.version ≥ 3) _ _ _).trans ?_
  refine (optional_bind (p.version ≥ 4) _ _ _).trans ?_
  refine (bind_of_eq (readU64_write _ _) _).trans ?_
  refine (bind_of_eq (readU64_write _ _) _).trans ?_
  refine (bind_of_eq (hstring _ hsized.sender) _).trans ?_
  refine (bind_of_eq (hstring _ hsized.senderPubkey) _).trans ?_
  refine (bind_of_eq (hstring _ hsized.channel) _).trans ?_
  refine (bind_of_eq (hstring _ hsized.recipient) _).trans ?_
  refine (bind_of_eq (hstring _ hsized.recipientPubkey) _).trans ?_
  refine (bind_of_eq (hstring _ hsized.wrappedKey) _).trans ?_
  refine (bind_of_eq (hstring _ hsized.body) _).trans ?_
  refine (bind_of_eq (hstring _ hsized.iv) _).trans ?_
  refine (bind_of_eq (hstring _ hsized.authTag) _).trans ?_
  exact bind_of_eq (hstring _ hsignature) _

/-- The fields of a payload that its version has. -/
def carried (p : ChatPayload) : ChatPayload :=
  if p.version ≥ 2 then p.profiled
  else ⟨1, p.chatType, 0, 0, 0, 0, 0, [], [], p.channel, p.recipient, [], [], p.body, [], [], []⟩

/-- A payload of version 1 is read in the fields of that version. -/
theorem deserialize_serialize_legacy (hversion : p.version = 1) (htype : p.chatType ≤ 1)
    (h : p.serialize.length < 2 ^ 64) : deserialize p.serialize = some p.carried := by
  have hcarried : ¬ p.version ≥ 2 := by rw [hversion]; decide
  have hlegacy : p.version < 2 := by rw [hversion]; decide
  have hchannel := length_le_writeBytes p.channel
  have hrecipient := length_le_writeBytes p.recipient
  have hbody := length_le_writeBytes p.body
  rw [serialize, if_pos hlegacy] at h ⊢
  simp only [List.length_cons, List.length_append] at h
  have hstring : ∀ {b : Bytes} (rest : Bytes), b.length < 2 ^ 64 →
      readString (writeBytes b ++ rest) = some (b, rest) := fun rest hb => readString_write hb rest
  rw [carried, if_neg hcarried, deserialize, if_pos htype, ← List.append_nil (writeBytes p.body)]
  simp only [List.append_assoc, Option.bind_eq_bind, Option.bind_some,
    hstring (b := p.channel) _ (by omega), hstring (b := p.recipient) _ (by omega),
    hstring (b := p.body) _ (by omega)]

theorem deserialize_carried (hversion : 2 ≤ p.version ∨ p.version = 1 ∧ p.chatType ≤ 1)
    (h : p.serialize.length < 2 ^ 64) : deserialize p.serialize = some p.carried := by
  obtain hcurrent | ⟨hlegacy, htype⟩ := hversion
  · rw [carried, if_pos hcurrent]
    exact deserialize_serialize hcurrent h
  · exact deserialize_serialize_legacy hlegacy htype h

/-! ## What is read -/

/-- The fields that a version does not have are not written. -/
theorem serialize_profiled : p.profiled.serialize = p.serialize := by
  have hheader : p.profiled.header = p.header := by
    rw [header, header, profiled]
    by_cases h₃ : p.version ≥ 3
    · by_cases h₄ : p.version ≥ 4
      · simp only [if_pos h₃, if_pos h₄]
      · simp only [if_pos h₃, if_neg h₄]
    · have h₄ : ¬ p.version ≥ 4 := by grind
      simp only [if_neg h₃, if_neg h₄]
  rw [serialize, serialize, hheader]
  rfl

/-- A payload is not longer than what it is read from, and an old one has an old
type. -/
theorem serialize_of_deserialize {data : Bytes} (h : deserialize data = some p) :
    p.serialize.length ≤ data.length ∧ (2 ≤ p.version ∨ p.chatType ≤ 1) := by
  cases data with
  | nil => cases h
  | cons first data =>
      rw [deserialize] at h
      split at h
      · next hfirst =>
          obtain ⟨⟨channel, d₁⟩, hchannel, h⟩ := Option.bind_eq_some_iff.mp h
          obtain ⟨⟨recipient, d₂⟩, hrecipient, h⟩ := Option.bind_eq_some_iff.mp h
          obtain ⟨⟨body, d₃⟩, hbody, h⟩ := Option.bind_eq_some_iff.mp h
          have hlchannel := readString_length hchannel
          have hlrecipient := readString_length hrecipient
          have hlbody := readString_length hbody
          cases h
          refine ⟨?_, .inr hfirst⟩
          rw [serialize, if_pos (show (1 : UInt8) < 2 by decide)]
          simp only [List.length_cons, List.length_append]
          omega
      · next hfirst =>
          obtain ⟨⟨chatType, d₁⟩, htype, h⟩ := Option.bind_eq_some_iff.mp h
          obtain ⟨⟨flags, d₂⟩, hflags, h⟩ := Option.bind_eq_some_iff.mp h
          obtain ⟨kdf, d₃, hlkdf, h⟩ := optional_bind_eq_some h
          obtain ⟨cipher, d₄, hlcipher, h⟩ := optional_bind_eq_some h
          obtain ⟨⟨timestamp, d₅⟩, htimestamp, h⟩ := Option.bind_eq_some_iff.mp h
          obtain ⟨⟨nonce, d₆⟩, hnonce, h⟩ := Option.bind_eq_some_iff.mp h
          obtain ⟨⟨sender, d₇⟩, hsender, h⟩ := Option.bind_eq_some_iff.mp h
          obtain ⟨⟨senderPubkey, d₈⟩, hsenderPubkey, h⟩ := Option.bind_eq_some_iff.mp h
          obtain ⟨⟨channel, d₉⟩, hchannel, h⟩ := Option.bind_eq_some_iff.mp h
          obtain ⟨⟨recipient, e₁⟩, hrecipient, h⟩ := Option.bind_eq_some_iff.mp h
          obtain ⟨⟨recipientPubkey, e₂⟩, hrecipientPubkey, h⟩ := Option.bind_eq_some_iff.mp h
          obtain ⟨⟨wrappedKey, e₃⟩, hwrappedKey, h⟩ := Option.bind_eq_some_iff.mp h
          obtain ⟨⟨body, e₄⟩, hbody, h⟩ := Option.bind_eq_some_iff.mp h
          obtain ⟨⟨iv, e₅⟩, hiv, h⟩ := Option.bind_eq_some_iff.mp h
          obtain ⟨⟨authTag, e₆⟩, hauthTag, h⟩ := Option.bind_eq_some_iff.mp h
          obtain ⟨⟨signature, e₇⟩, hsignature, h⟩ := Option.bind_eq_some_iff.mp h
          cases h
          have hltype := readU8_length htype
          have hlflags := readU8_length hflags
          have hltimestamp := readU64_length htimestamp
          have hlnonce := readU64_length hnonce
          have hlsender := readString_length hsender
          have hlsenderPubkey := readString_length hsenderPubkey
          have hlchannel := readString_length hchannel
          have hlrecipient := readString_length hrecipient
          have hlrecipientPubkey := readString_length hrecipientPubkey
          have hlwrappedKey := readString_length hwrappedKey
          have hlbody := readString_length hbody
          have hliv := readString_length hiv
          have hlauthTag := readString_length hauthTag
          have hlsignature := readString_length hsignature
          have hversion : 2 ≤ first := by grind
          refine ⟨?_, .inl hversion⟩
          rw [serialize, if_neg (UInt8.not_lt.mpr hversion), header]
          simp only [List.length_cons, List.length_append, List.length_nil]
          omega

end ChatPayload

end Chat

end Cryptex
