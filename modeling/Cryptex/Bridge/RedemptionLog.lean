import Cryptex.Bridge.Conservation
import Cryptex.Bridge.Text

/-!
# Redemption logs

`decode_redemption_requested` of `bridge_daemon.py` against the
`RedemptionRequested` events of the token, as a node returns them from
`eth_getLogs`.
-/

namespace Cryptex

namespace Bridge

/-- A log of `eth_getLogs`; a field may be missing. -/
structure RawLog where
  topics : Option (List Text)
  data : Option Text
  transactionHash : Option Text
  blockNumber : Option Text
  logIndex : Option Text

/-- The decoded event. -/
structure RedemptionEvent where
  redemptionId : Text
  account : Text
  operator : Text
  nativeDestination : Text
  amountWei : Nat
  amountSats : Nat
  nonce : Nat
  evmTxHash : Text
  evmBlockNumber : Int
  evmLogIndex : Int
deriving DecidableEq

/-! ## The decoder -/

def bridgeUnitWei : Nat := 10000000000

def redemptionRequestedTopic0 : Text :=
  Text.ofString "0x481c6f6c5619b8b3c685ace71e6256ac5a45feb7d2d92341ef124b8974a61ee0"

/-- `ensure_bytes32`. -/
def ensureBytes32 (value : Text) : Except PyError Text :=
  let normalized := Text.dropPrefix (Text.lower value)
  if normalized.length ≠ 64 ∨ ∃ ch ∈ normalized, ch ∉ Text.ofString "0123456789abcdef" then
    .error (.bridgeError (Text.ofString "expected 32-byte hex value, got " ++ value))
  else .ok (Text.withPrefix normalized)

/-- A Python slice of bytes. -/
def slice (data : Bytes) (start stop : Nat) : Bytes := (data.take stop).drop start

/-- `bytes.fromhex` with its exception. -/
def bytesFromHex (t : Text) : Except PyError Bytes :=
  match Text.fromHex t with
  | none => .error .valueError
  | some data => .ok data

/-- `int(text, 16)` with its exception. -/
def intFromHex (t : Text) : Except PyError Int :=
  match Text.parseInt16 t with
  | none => .error .valueError
  | some n => .ok n

/-- The destination, amount and nonce in the data of a log. -/
def decodeData (data : Bytes) : Except PyError (Text × Nat × Nat) :=
  if data.length < 96 then
    .error (.bridgeError (Text.ofString "unexpected RedemptionRequested log payload"))
  else
    let offset := fromBytes (slice data 0 32)
    let amountWei := fromBytes (slice data 32 64)
    let nonce := fromBytes (slice data 64 96)
    if amountWei % bridgeUnitWei ≠ 0 then
      .error (.bridgeError (Text.ofString "redemption amount " ++ (Nat.repr amountWei).toList ++
        Text.ofString " is not convertible to native CRX units"))
    else if offset + 32 > data.length then
      .error (.bridgeError (Text.ofString "invalid dynamic string offset in redemption event"))
    else
      let stringLength := fromBytes (slice data offset (offset + 32))
      let stringStart := offset + 32
      let stringEnd := stringStart + stringLength
      if stringEnd > data.length then
        .error (.bridgeError (Text.ofString "invalid dynamic string length in redemption event"))
      else
        match Text.decodeUtf8 (slice data stringStart stringEnd) with
        | none => .error .unicodeDecodeError
        | some nativeDestination => .ok (nativeDestination, amountWei, nonce)

/-- `decode_redemption_requested`. -/
def decodeRedemptionRequested (rawLog : RawLog) : Except PyError RedemptionEvent :=
  match rawLog.topics.getD [] with
  | _ :: topic1 :: topic2 :: topic3 :: _ => do
      let data ← bytesFromHex (Text.dropPrefix (rawLog.data.getD (Text.ofString "0x")))
      let (nativeDestination, amountWei, nonce) ← decodeData data
      let redemptionId ← ensureBytes32 topic1
      let evmTxHash ← ensureBytes32 (rawLog.transactionHash.getD [])
      let evmBlockNumber ← intFromHex (rawLog.blockNumber.getD (Text.ofString "0x0"))
      let evmLogIndex ← intFromHex (rawLog.logIndex.getD (Text.ofString "0x0"))
      return {
        redemptionId := redemptionId
        account := Text.withPrefix (Text.lower (Text.takeLast 40 topic2))
        operator := Text.withPrefix (Text.lower (Text.takeLast 40 topic3))
        nativeDestination := nativeDestination
        amountWei := amountWei
        amountSats := amountWei / bridgeUnitWei
        nonce := nonce
        evmTxHash := evmTxHash
        evmBlockNumber := evmBlockNumber
        evmLogIndex := evmLogIndex }
  | _ => .error (.bridgeError (Text.ofString "unexpected RedemptionRequested log: missing topics"))

/-! ## The log of a redemption -/

/-- Where a log stands. -/
structure LogPosition where
  transactionHash : Hash256
  blockNumber : Nat
  logIndex : Nat

/-- An address as text. -/
def addressText (a : Address) : Text := Text.ofBytes (toPaddedBytes 20 a.toNat)

/-- The three indexed arguments become topics, the others the data. -/
def redemptionLog (id : Hash256) (account operator : Address) (nativeDestination : Bytes)
    (amount nonce : UInt256) (pos : LogPosition) : RawLog where
  topics := some [redemptionRequestedTopic0, Text.ofBytes id.toBytes,
    Text.ofBytes (abiEncode [addressWord account]), Text.ofBytes (abiEncode [addressWord operator])]
  data := some (Text.ofBytes (abiEncode [.string nativeDestination, .word amount, .word nonce]))
  transactionHash := some (Text.ofBytes pos.transactionHash.toBytes)
  blockNumber := some (Text.ofQuantity pos.blockNumber)
  logIndex := some (Text.ofQuantity pos.logIndex)

/-- The event that an undamaged log decodes to. -/
def redemptionEvent (id : Hash256) (account operator : Address) (nativeDestination : Text)
    (amount nonce : UInt256) (pos : LogPosition) : RedemptionEvent where
  redemptionId := Text.ofBytes id.toBytes
  account := addressText account
  operator := addressText operator
  nativeDestination := nativeDestination
  amountWei := amount.toNat
  amountSats := amount.toNat / bridgeUnit
  nonce := nonce.toNat
  evmTxHash := Text.ofBytes pos.transactionHash.toBytes
  evmBlockNumber := pos.blockNumber
  evmLogIndex := pos.logIndex

/-! ## Bytes and digits -/

theorem slice_append (xs ys zs : Bytes) :
    slice (xs ++ (ys ++ zs)) xs.length (xs.length + ys.length) = ys := by
  rw [slice, ← List.append_assoc, ← List.length_append, List.take_left, List.drop_left]

/-- The slice between two known places. -/
theorem slice_eq {data ys zs : Bytes} {start stop : Nat} (xs : Bytes)
    (hdata : data = xs ++ (ys ++ zs)) (hstart : xs.length = start)
    (hstop : start + ys.length = stop) : slice data start stop = ys := by
  subst hdata hstart hstop
  exact slice_append xs ys zs

theorem toPaddedBytes_add (k x : Nat) : ∀ (n : Nat),
    toPaddedBytes (k + n) x = toPaddedBytes k (x / 256 ^ n) ++ toPaddedBytes n x
  | 0 => by simp [toPaddedBytes]
  | n + 1 => by
      rw [← Nat.add_assoc, toPaddedBytes, toPaddedBytes_add k (x / 256) n, toPaddedBytes,
        Nat.div_div_eq_div_mul, List.append_assoc, pow_succ, Nat.mul_comm 256]

theorem hexDigit_mem : ∀ d < 16, Text.hexDigit d ∈ Text.ofString "0123456789abcdef" := by decide

theorem ensureBytes32_of_hexDigits {value : Text} {data : Bytes} (h : data.length = 32)
    (hform : Text.dropPrefix (Text.lower value) = Text.hexDigits data) :
    ensureBytes32 value = .ok (Text.ofBytes data) := by
  have hdigits : ∀ ch ∈ Text.hexDigits data, ch ∈ Text.ofString "0123456789abcdef" := by
    intro ch hch
    obtain ⟨d, hd, rfl⟩ := Text.mem_hexDigits hch
    exact hexDigit_mem d hd
  have hok : ¬ ((Text.hexDigits data).length ≠ 64
      ∨ ∃ ch ∈ Text.hexDigits data, ch ∉ Text.ofString "0123456789abcdef") := by
    rintro (hlen | ⟨ch, hch, hnot⟩)
    · exact hlen (by rw [Text.length_hexDigits, h])
    · exact hnot (hdigits ch hch)
  unfold ensureBytes32
  simp only [hform]
  rw [if_neg hok, Text.ofBytes]

theorem ensureBytes32_ofBytes {data : Bytes} (h : data.length = 32) :
    ensureBytes32 (Text.ofBytes data) = .ok (Text.ofBytes data) := by
  refine ensureBytes32_of_hexDigits h ?_
  rw [Text.ofBytes, Text.lower_withPrefix, Text.dropPrefix_withPrefix, Text.lower_hexDigits]

theorem fromBytes_toBytes (w : UInt256) : fromBytes (Hash256.toBytes w) = w.toNat :=
  fromBytes_toPaddedBytes (lt_of_lt_of_eq w.isLt (by norm_num))

theorem abiEncode_word (w : UInt256) : abiEncode [.word w] = Hash256.toBytes w := by
  simp [abiEncode, abiHeads, AbiValue.head, AbiValue.tail]

/-- The address is in the last twenty bytes of its topic. -/
theorem addressText_topic (a : Address) :
    Text.withPrefix (Text.lower (Text.takeLast 40 (Text.ofBytes (abiEncode [addressWord a]))))
      = addressText a := by
  have hnat : (a.setWidth 256 : UInt256).toNat = a.toNat := by
    rw [BitVec.toNat_setWidth, Nat.mod_eq_of_lt]
    exact lt_trans a.isLt (by norm_num)
  have hbytes : abiEncode [addressWord a]
      = toPaddedBytes 12 (a.toNat / 256 ^ 20) ++ toPaddedBytes 20 a.toNat := by
    rw [addressWord, abiEncode_word, Hash256.toBytes, hnat]
    exact toPaddedBytes_add 12 a.toNat 20
  have hlast : Text.takeLast 40 (Text.ofBytes (abiEncode [addressWord a]))
      = Text.hexDigits (toPaddedBytes 20 a.toNat) := by
    rw [hbytes, Text.ofBytes, Text.hexDigits_append, Text.takeLast, Text.withPrefix,
      ← List.cons_append, ← List.cons_append]
    exact List.drop_left' (by simp)
  rw [hlast, Text.lower_hexDigits, addressText, Text.ofBytes]

/-! ## The data of a log -/

section Data

variable (nativeDestination : Bytes) (amount nonce : UInt256)

/-- The data: where the string starts, the two words, the length and the
string. -/
theorem abiEncode_redemption :
    abiEncode [.string nativeDestination, .word amount, .word nonce]
      = toPaddedBytes 32 96 ++ (Hash256.toBytes amount ++ (Hash256.toBytes nonce ++
          (toPaddedBytes 32 nativeDestination.length ++
            (nativeDestination ++ AbiValue.padding nativeDestination)))) := by
  simp [abiEncode, abiHeads, AbiValue.head, AbiValue.tail]

/-- The data is read back up to the text of the destination. -/
theorem decodeData_abiEncode (hamount : amount.toNat % bridgeUnit = 0)
    (hlength : nativeDestination.length < 2 ^ 256) :
    decodeData (abiEncode [.string nativeDestination, .word amount, .word nonce])
      = match Text.decodeUtf8 nativeDestination with
        | none => .error .unicodeDecodeError
        | some text => .ok (text, amount.toNat, nonce.toNat) := by
  have hdata := abiEncode_redemption nativeDestination amount nonce
  set data := abiEncode [.string nativeDestination, .word amount, .word nonce] with hdef
  have hlen : data.length
      = 128 + (nativeDestination.length + (AbiValue.padding nativeDestination).length) := by
    rw [hdata]
    simp only [List.length_append, length_toPaddedBytes, Hash256.length_toBytes]
    omega
  have hoffset : slice data 0 32 = toPaddedBytes 32 96 :=
    slice_eq [] hdata rfl (by simp)
  have hamountWei : slice data 32 64 = Hash256.toBytes amount :=
    slice_eq (toPaddedBytes 32 96) hdata (by simp) (by simp)
  have hnonce : slice data 64 96 = Hash256.toBytes nonce :=
    slice_eq (toPaddedBytes 32 96 ++ Hash256.toBytes amount)
      (by rw [hdata, List.append_assoc]) (by simp) (by simp)
  have hstringLength : slice data 96 (96 + 32) = toPaddedBytes 32 nativeDestination.length :=
    slice_eq (toPaddedBytes 32 96 ++ Hash256.toBytes amount ++ Hash256.toBytes nonce)
      (by rw [hdata, List.append_assoc, List.append_assoc]) (by simp) (by simp)
  have hstring : slice data (96 + 32) (96 + 32 + nativeDestination.length) = nativeDestination :=
    slice_eq (toPaddedBytes 32 96 ++ Hash256.toBytes amount ++ Hash256.toBytes nonce
        ++ toPaddedBytes 32 nativeDestination.length)
      (by rw [hdata, List.append_assoc, List.append_assoc, List.append_assoc]) (by simp) (by simp)
  have hunit : amount.toNat % bridgeUnitWei = 0 := hamount
  have hfits : fromBytes (toPaddedBytes 32 nativeDestination.length) = nativeDestination.length :=
    fromBytes_toPaddedBytes (lt_of_lt_of_eq hlength (by norm_num))
  have hstart : fromBytes (toPaddedBytes 32 96) = 96 := fromBytes_toPaddedBytes (by norm_num)
  unfold decodeData
  simp only [hoffset, hstart, hamountWei, hnonce, hstringLength, hfits, hstring,
    fromBytes_toBytes]
  rw [if_neg (by omega), if_neg (by omega), if_neg (by omega), if_neg (by omega)]

end Data

/-- The topics and the position always decode; the text of the destination
decides. -/
theorem decodeRedemptionRequested_redemptionLog (id : Hash256) (account operator : Address)
    {nativeDestination : Bytes} {amount : UInt256} (nonce : UInt256) (pos : LogPosition)
    (hamount : amount.toNat % bridgeUnit = 0) (hlength : nativeDestination.length < 2 ^ 256) :
    decodeRedemptionRequested (redemptionLog id account operator nativeDestination amount nonce pos)
      = match Text.decodeUtf8 nativeDestination with
        | none => .error .unicodeDecodeError
        | some text => .ok (redemptionEvent id account operator text amount nonce pos) := by
  have hid := ensureBytes32_ofBytes (Hash256.length_toBytes id)
  have hhash := ensureBytes32_ofBytes (Hash256.length_toBytes pos.transactionHash)
  have hblock : intFromHex (Text.ofQuantity pos.blockNumber) = .ok pos.blockNumber := by
    rw [intFromHex, Text.parseInt16_ofQuantity]
  have hindex : intFromHex (Text.ofQuantity pos.logIndex) = .ok pos.logIndex := by
    rw [intFromHex, Text.parseInt16_ofQuantity]
  have hbytes : ∀ (data : Bytes), bytesFromHex (Text.dropPrefix (Text.ofBytes data)) = .ok data := by
    intro data
    rw [Text.ofBytes, Text.dropPrefix_withPrefix, bytesFromHex, Text.fromHex_hexDigits]
  have hdata := decodeData_abiEncode nativeDestination amount nonce hamount hlength
  unfold decodeRedemptionRequested redemptionLog
  simp only [Option.getD_some, hbytes, hid, hhash, hblock, hindex, addressText_topic]
  cases htext : Text.decodeUtf8 nativeDestination with
  | none =>
      rw [htext] at hdata
      simp only [bind, Except.bind, hdata]
  | some text =>
      rw [htext] at hdata
      simp only [bind, Except.bind, hdata]
      rfl

/-! ## Accepted redemptions -/

/-- A decoded event says the same as the one emitted. -/
structure RedemptionEvent.Describes (r : RedemptionEvent) (id : Hash256)
    (account operator : Address) (nativeDestination : Bytes) (amount nonce : UInt256) : Prop where
  redemptionId : r.redemptionId = Text.ofBytes id.toBytes
  account : r.account = addressText account
  operator : r.operator = addressText operator
  nativeDestination : Text.encodeUtf8 r.nativeDestination = nativeDestination
  amountWei : r.amountWei = amount.toNat
  amountSats : r.amountSats * bridgeUnit = amount.toNat
  nonce : r.nonce = nonce.toNat

namespace WrappedCryptEX

variable {oz : OpenZeppelin} {evm : Evm} {s s' : WrappedCryptEX oz} {sender : Address}
  {evs : List Event}

/-- What the token has checked of a redemption that it announces. -/
theorem redeem_checked {a o : Address} {v : UInt256} {dest : Bytes}
    (h : redeem evm s a o v dest = some (s', evs)) {id : Hash256} {account operator : Address}
    {nativeDestination : Bytes} {amount nonce : UInt256}
    (hmem : Event.redemptionRequested id account operator nativeDestination amount nonce ∈ evs) :
    amount.toNat % bridgeUnit = 0 ∧ nativeDestination.length ≤ maxNativeReferenceLength := by
  unfold redeem at h
  split at h
  · cases h
  · split at h
    · cases h
    · next hunit =>
        split at h
        · cases h
        · split at h
          · cases h
          · next hvalid =>
              obtain ⟨t, -, heq⟩ := Option.map_eq_some_iff.mp h
              cases heq
              cases List.mem_singleton.mp hmem
              have hunit : v.toNat % bridgeUnit = 0 := by simpa using hunit
              refine ⟨hunit, Nat.le_of_not_lt fun hlong => hvalid ?_⟩
              simp [validateReference, hlong]

theorem call_checked {c : Call oz} (h : s.call evm sender c = some (s', evs)) {id : Hash256}
    {account operator : Address} {nativeDestination : Bytes} {amount nonce : UInt256}
    (hmem : Event.redemptionRequested id account operator nativeDestination amount nonce ∈ evs) :
    amount.toNat % bridgeUnit = 0 ∧ nativeDestination.length ≤ maxNativeReferenceLength := by
  cases c with
  | requestRedemption v dest =>
      rw [call] at h
      split at h
      · cases h
      · exact redeem_checked h hmem
  | requestRedemptionFrom a v dest =>
      rw [call] at h
      split at h
      · cases h
      · split at h
        · cases h
        · exact redeem_checked h hmem
  | mintFromBridge recipient v depositId nativeTxId nativeSender =>
      simp only [call, mintFromBridge] at h
      repeat' split at h
      all_goals try cases h
      obtain ⟨t, -, heq⟩ := Option.map_eq_some_iff.mp h
      cases heq
      cases List.mem_singleton.mp hmem
  | transferFrom src dst value =>
      rw [call] at h
      split at h
      · cases h
      · obtain ⟨t, -, heq⟩ := Option.map_eq_some_iff.mp h
        cases heq
        cases hmem
  | transfer | allowance | access =>
      obtain ⟨t, -, heq⟩ := Option.map_eq_some_iff.mp h
      cases heq
      cases hmem
  | pause | unpause =>
      rw [call] at h
      split at h
      · cases h
      · obtain ⟨t, -, heq⟩ := Option.map_eq_some_iff.mp h
        cases heq
        cases hmem
  | rescueERC20 =>
      rw [call] at h
      repeat' split at h
      all_goals cases h
      cases hmem

/-- The daemon reads an accepted redemption as the token announced it, unless
the destination is not a text. -/
theorem decodeRedemptionRequested_describes_iff {c : Call oz}
    (h : s.call evm sender c = some (s', evs)) {id : Hash256} {account operator : Address}
    {nativeDestination : Bytes} {amount nonce : UInt256}
    (hmem : Event.redemptionRequested id account operator nativeDestination amount nonce ∈ evs)
    (pos : LogPosition) :
    (∃ r, decodeRedemptionRequested
        (redemptionLog id account operator nativeDestination amount nonce pos) = .ok r ∧
        r.Describes id account operator nativeDestination amount nonce)
      ↔ ∃ text, Text.encodeUtf8 text = nativeDestination := by
  obtain ⟨hunit, hlength⟩ := call_checked h hmem
  have hfits : nativeDestination.length < 2 ^ 256 := lt_of_le_of_lt hlength (by norm_num [maxNativeReferenceLength])
  rw [decodeRedemptionRequested_redemptionLog id account operator nonce pos hunit hfits]
  constructor
  · rintro ⟨r, -, hsame⟩
    exact ⟨r.nativeDestination, hsame.nativeDestination⟩
  · rintro ⟨text, rfl⟩
    rw [Text.decodeUtf8_encodeUtf8]
    refine ⟨_, rfl, rfl, rfl, rfl, rfl, rfl, ?_, rfl⟩
    exact Nat.div_mul_cancel (Nat.dvd_of_mod_eq_zero hunit)

/-! ## A sample -/

/-- Two units are minted for the redeemer. -/
def sampleMint : List (Address × Call .plain) := [(2, .mintFromBridge 5 20000000000 7 8 [])]

/-- The sample's token after the mint, for the account that holds it. -/
theorem sample_redemption (dest : Bytes) (hdest : dest = ascii "crx1dest" ∨ dest = [0xFF]) :
    ∃ s evs s', Reachable .plain sampleEvm s evs ∧
      s.call sampleEvm 5 (.requestRedemption 10000000000 dest) = some (s',
        [.redemptionRequested
          0x30f0a6951b2d1bd8a0429d380a9512adc9a6ecdcbd9ae9b2d498235cffab29ed 5 5 dest
          10000000000 1]) := by
  have hrun : ((deploy .plain sampleEvm (ascii "Wrapped CryptEX") (ascii "wCRX") 1 2 3).bind fun s =>
      ((runCalls sampleEvm (s, []) sampleMint).1.call sampleEvm 5
        (.requestRedemption 10000000000 dest)).map Prod.snd)
      = some [.redemptionRequested
          0x30f0a6951b2d1bd8a0429d380a9512adc9a6ecdcbd9ae9b2d498235cffab29ed 5 5 dest
          10000000000 1] := by
    rcases hdest with rfl | rfl <;> decide
  obtain ⟨s, hs, hcall⟩ := Option.bind_eq_some_iff.mp hrun
  obtain ⟨⟨s', evs⟩, hcall, rfl⟩ := Option.map_eq_some_iff.mp hcall
  exact ⟨_, _, s', @Reachable.runCalls _ _ sampleMint s [] (.deployed hs), hcall⟩

/-- No character is encoded with the byte 0xFF. -/
theorem utf8EncodeChar_ne_ff (ch : Char) : ∀ b ∈ String.utf8EncodeChar ch, b ≠ 0xFF := by
  have hne : ∀ {n : Nat}, n < 255 → UInt8.ofNat n ≠ 0xFF := by
    intro n hn heq
    have hnat := congrArg UInt8.toNat heq
    rw [UInt8.toNat_ofNat', Nat.mod_eq_of_lt (by omega)] at hnat
    exact absurd hnat (by rw [show (0xFF : UInt8).toNat = 255 from rfl]; omega)
  intro b hb
  unfold String.utf8EncodeChar at hb
  dsimp only at hb
  split_ifs at hb
  all_goals
    simp only [List.mem_cons, List.not_mem_nil, or_false] at hb
    rcases hb with rfl | rfl | rfl | rfl <;> exact hne (by omega)

theorem decodeUtf8_ff : Text.decodeUtf8 [0xFF] = none := by
  cases htext : Text.decodeUtf8 [0xFF] with
  | none => rfl
  | some text =>
      exfalso
      have hmem : (0xFF : UInt8) ∈ Text.encodeUtf8 text := by
        rw [Text.encodeUtf8_of_decodeUtf8 htext]
        exact List.mem_singleton.mpr rfl
      obtain ⟨ch, -, hch⟩ := List.mem_flatMap.mp hmem
      exact utf8EncodeChar_ne_ff ch _ hch rfl

/-- The redemption of the sample to an ASCII destination is read back. -/
theorem decodeRedemptionRequested_describes_sample : ∃ r : RedemptionEvent,
    decodeRedemptionRequested (redemptionLog
        0x30f0a6951b2d1bd8a0429d380a9512adc9a6ecdcbd9ae9b2d498235cffab29ed 5 5
        (ascii "crx1dest") 10000000000 1 ⟨1, 2, 3⟩) = .ok r ∧
      r.Describes 0x30f0a6951b2d1bd8a0429d380a9512adc9a6ecdcbd9ae9b2d498235cffab29ed 5 5
        (ascii "crx1dest") 10000000000 1 := by
  obtain ⟨s, evs, s', -, hcall⟩ := sample_redemption (ascii "crx1dest") (.inl rfl)
  exact (decodeRedemptionRequested_describes_iff hcall (List.mem_singleton.mpr rfl)
    ⟨1, 2, 3⟩).mpr ⟨Text.ofString "crx1dest", by decide⟩

/-- A redemption to the byte 0xFF is accepted, and its log is not decoded. -/
theorem not_decodes_redemption : ¬ ∀ (s : WrappedCryptEX .plain) (evs : List Event),
    Reachable .plain sampleEvm s evs → ∀ (sender : Address) (c : Call .plain)
    (s' : WrappedCryptEX .plain) (id : Hash256) (account operator : Address)
    (nativeDestination : Bytes) (amount nonce : UInt256),
    s.call sampleEvm sender c
      = some (s', [.redemptionRequested id account operator nativeDestination amount nonce]) →
    ∃ r, decodeRedemptionRequested (redemptionLog id account operator nativeDestination amount nonce
      ⟨1, 2, 3⟩) = .ok r := by
  intro hall
  obtain ⟨s, evs, s', hreach, hcall⟩ := sample_redemption [0xFF] (.inr rfl)
  obtain ⟨r, hdecode⟩ := hall s evs hreach _ _ _ _ _ _ _ _ _ hcall
  rw [decodeRedemptionRequested_redemptionLog _ _ _ _ _ (by decide) (by decide),
    decodeUtf8_ff] at hdecode
  cases hdecode

end WrappedCryptEX

end Bridge

end Cryptex
