import Cryptex.WalletKeys
import Mathlib.Logic.Equiv.List

/-!
# The payload of the wallet

`serialize_plaintext` and `deserialize_plaintext` of `wallet.cpp`. A payload
starts with the number of its layout; one that starts with no known number, or
is shorter than a number, is a single private key.
-/

namespace Cryptex

open Encoding

/-! ## Fields -/

def Encoding.Format.code : Format → UInt32
  | .base64 => 0
  | .base58check => 1
  | .hex => 2
  | .bech32 => 3

def HdScheme.code : HdScheme → UInt32
  | .none => 0
  | .legacyCxhd => 1
  | .bip32 => 2

namespace WalletPayload

def readNumber (data : Bytes) : Except Stop (UInt32 × Bytes) :=
  match readU32 data with
  | none => .error (.message "Not enough data for integer")
  | some r => .ok r

def readCount (data : Bytes) : Except Stop (Nat × Bytes) :=
  if data = [] then .error (.message "Not enough data for varint")
  else
    match readVarint data with
    | none => .error (.message "Not enough data for integer")
    | some r => .ok r

def readField (data : Bytes) : Except Stop (Bytes × Bytes) := do
  let (len, data) ← readCount data
  if data.length < len then throw (.message "Not enough data for byte vector")
  return (data.take len, data.drop len)

def readFormat (data : Bytes) : Except Stop (Format × Bytes) := do
  let (format, data) ← readNumber data
  if format = 0 then return (.base64, data)
  else if format = 1 then return (.base58check, data)
  else if format = 2 then return (.hex, data)
  else if format = 3 then return (.bech32, data)
  else throw (.message "wallet address format unsupported")

def readScheme (data : Bytes) : Except Stop (HdScheme × Bytes) := do
  let (scheme, data) ← readNumber data
  if scheme = 0 then return (.none, data)
  else if scheme = 1 then return (.legacyCxhd, data)
  else if scheme = 2 then return (.bip32, data)
  else throw (.message "wallet HD scheme unsupported")

/-- The loop over the keys. -/
def readKeyLoop : Nat → Bytes → Except Stop (List Bytes × Bytes)
  | 0, data => .ok ([], data)
  | count + 1, data => do
      let (key, data) ← readField data
      let (keys, data) ← readKeyLoop count data
      return (key :: keys, data)

def readKeys (data : Bytes) : Except Stop (List Bytes × Bytes) := do
  let (count, data) ← readCount data
  if count = 0 then throw (.message "wallet has no keys")
  readKeyLoop count data

/-- The loop over the labels. -/
def readLabelLoop : Nat → FinMap Bytes Bytes → Bytes → Except Stop (FinMap Bytes Bytes × Bytes)
  | 0, labels, data => .ok (labels, data)
  | count + 1, labels, data => do
      let (key, data) ← readField data
      let (label, data) ← readField data
      readLabelLoop count (labels.emplace key label) data

def readLabels (data : Bytes) : Except Stop (FinMap Bytes Bytes × Bytes) := do
  let (count, data) ← readCount data
  readLabelLoop count ∅ data

/-! ## Layouts -/

/-- The fields of a wallet that was just constructed. -/
def blank : WalletPayload := ⟨.base64, .none, 0, [], [], [], ∅⟩

def read7 (data : Bytes) : Except Stop WalletPayload := do
  let (addressFormat, data) ← readFormat data
  let (hdScheme, data) ← readScheme data
  let (nextHdIndex, data) ← readNumber data
  let (mnemonicEntropy, data) ← readField data
  let (masterSeed, data) ← readField data
  let (privkeys, data) ← readKeys data
  let (labels, _) ← readLabels data
  return ⟨addressFormat, hdScheme, nextHdIndex, mnemonicEntropy, masterSeed, privkeys, labels⟩

def read6 (data : Bytes) : Except Stop WalletPayload := do
  let (hdScheme, data) ← readScheme data
  let (nextHdIndex, data) ← readNumber data
  let (mnemonicEntropy, data) ← readField data
  let (masterSeed, data) ← readField data
  let (privkeys, data) ← readKeys data
  let (labels, _) ← readLabels data
  return { blank with hdScheme, nextHdIndex, mnemonicEntropy, masterSeed, privkeys, labels }

def read5 (data : Bytes) : Except Stop WalletPayload := do
  let (hdScheme, data) ← readScheme data
  let (nextHdIndex, data) ← readNumber data
  let (mnemonicEntropy, data) ← readField data
  let (masterSeed, data) ← readField data
  let (privkeys, _) ← readKeys data
  return { blank with hdScheme, nextHdIndex, mnemonicEntropy, masterSeed, privkeys }

def read4 (data : Bytes) : Except Stop WalletPayload := do
  let (hdScheme, data) ← readScheme data
  let (nextHdIndex, data) ← readNumber data
  let (masterSeed, data) ← readField data
  let (privkeys, _) ← readKeys data
  return { blank with hdScheme, nextHdIndex, masterSeed, privkeys }

/-- Before the schemes had numbers, there was a flag for the seed. -/
def read3 (data : Bytes) : Except Stop WalletPayload := do
  let (hasSeed, data) ← readNumber data
  let (nextHdIndex, data) ← readNumber data
  let (masterSeed, data) ← readField data
  let (privkeys, _) ← readKeys data
  return { blank with
    masterSeed := if hasSeed = 0 then [] else masterSeed
    hdScheme := if hasSeed = 0 then .none else .legacyCxhd
    nextHdIndex, privkeys }

def read2 (data : Bytes) : Except Stop WalletPayload := do
  let (privkeys, _) ← readKeys data
  return { blank with privkeys }

/-- A payload without structure is one key. -/
def legacy (plaintext : Bytes) : WalletPayload := { blank with privkeys := [plaintext] }

/-- What `deserialize_plaintext` reads before it rebuilds the public keys. -/
def read (plaintext : Bytes) : Except Stop WalletPayload :=
  if plaintext = [] then .error (.message "wallet payload empty")
  else
    match readU32 plaintext with
    | none => .ok (legacy plaintext)
    | some (version, data) =>
        if version = 7 then read7 data
        else if version = 6 then read6 data
        else if version = 5 then read5 data
        else if version = 4 then read4 data
        else if version = 3 then read3 data
        else if version = 2 then read2 data
        else .ok (legacy plaintext)

end WalletPayload

/-- `deserialize_plaintext`. -/
def deserializePlaintext (lib : KeyLib) (plaintext : Bytes) : Except Stop HdWallet := do
  let payload ← WalletPayload.read plaintext
  payload.restore lib

/-- `serialize_plaintext`, with the order in which the labels are traversed. -/
def HdWallet.serializePlaintext (order : FinMap.VisitOrder Bytes Bytes) (w : HdWallet) : Bytes :=
  writeU32 7 ++ (writeU32 w.addressFormat.code ++ (writeU32 w.hdScheme.code ++
    (writeU32 w.nextHdIndex ++ (writeBytes w.mnemonicEntropy ++ (writeBytes w.masterSeed ++
      (writeVarint w.privkeys.length ++ (w.privkeys.flatMap writeBytes ++
        (writeVarint (order.visit w.labels).length ++
          (order.visit w.labels).flatMap fun e => writeBytes e.1 ++ writeBytes e.2))))))))

namespace WalletPayload

/-! ## Reading what was written -/

/-- Sizes are `size_t`. -/
structure Sized (p : WalletPayload) : Prop where
  mnemonicEntropy : p.mnemonicEntropy.length < 2 ^ 64
  masterSeed : p.masterSeed.length < 2 ^ 64
  privkeys : p.privkeys.length < 2 ^ 64
  privkey : ∀ key ∈ p.privkeys, key.length < 2 ^ 64
  labels : p.labels.keys.card < 2 ^ 64
  label : ∀ key label, p.labels.lookup key = some label → key.length < 2 ^ 64 ∧ label.length < 2 ^ 64

theorem readNumber_writeU32 (value : UInt32) (rest : Bytes) :
    readNumber (writeU32 value ++ rest) = .ok (value, rest) := by
  rw [readNumber, roundTrip_u32]

theorem readFormat_code (format : Format) (rest : Bytes) :
    readFormat (writeU32 format.code ++ rest) = .ok (format, rest) := by
  rw [readFormat, readNumber_writeU32]
  cases format <;> rfl

theorem readScheme_code (scheme : HdScheme) (rest : Bytes) :
    readScheme (writeU32 scheme.code ++ rest) = .ok (scheme, rest) := by
  rw [readScheme, readNumber_writeU32]
  cases scheme <;> rfl

theorem readCount_writeVarint {n : Nat} (h : n < 2 ^ 64) (rest : Bytes) :
    readCount (writeVarint n ++ rest) = .ok (n, rest) := by
  have hread := readVarint_writeVarint rest h
  have hne : writeVarint n ++ rest ≠ [] := by
    intro hnil
    rw [hnil] at hread
    cases hread
  rw [readCount, if_neg hne, hread]

theorem readField_writeBytes {b : Bytes} (h : b.length < 2 ^ 64) (rest : Bytes) :
    readField (writeBytes b ++ rest) = .ok (b, rest) := by
  have hlen : ¬ (b ++ rest).length < b.length := by
    rw [List.length_append]
    omega
  rw [readField, writeBytes, List.append_assoc, readCount_writeVarint h]
  simp only [bind, Except.bind, if_neg hlen, List.take_left', List.drop_left']
  rfl

theorem readKeyLoop_flatMap : ∀ {keys : List Bytes}, (∀ key ∈ keys, key.length < 2 ^ 64) →
    ∀ rest : Bytes, readKeyLoop keys.length (keys.flatMap writeBytes ++ rest) = .ok (keys, rest)
  | [], _, rest => rfl
  | key :: keys, h, rest => by
      have hrest := readKeyLoop_flatMap (fun k hk => h k (List.mem_cons_of_mem _ hk)) rest
      rw [List.flatMap_cons, List.append_assoc, List.length_cons, readKeyLoop,
        readField_writeBytes (h key List.mem_cons_self)]
      simp only [bind, Except.bind, hrest]
      rfl

theorem readLabelLoop_flatMap : ∀ {entries : List (Bytes × Bytes)},
    (∀ e ∈ entries, e.1.length < 2 ^ 64 ∧ e.2.length < 2 ^ 64) →
      ∀ (labels : FinMap Bytes Bytes) (rest : Bytes),
        readLabelLoop entries.length labels
          ((entries.flatMap fun e => writeBytes e.1 ++ writeBytes e.2) ++ rest) =
            .ok (labels.emplaceAll entries, rest)
  | [], _, labels, rest => rfl
  | e :: entries, h, labels, rest => by
      obtain ⟨hkey, hlabel⟩ := h e List.mem_cons_self
      have hrest := readLabelLoop_flatMap (fun x hx => h x (List.mem_cons_of_mem _ hx))
        (labels.emplace e.1 e.2) rest
      rw [List.flatMap_cons, List.append_assoc, List.append_assoc, List.length_cons, readLabelLoop,
        readField_writeBytes hkey]
      simp only [bind, Except.bind, readField_writeBytes hlabel, hrest]
      rfl

theorem length_visit (order : FinMap.VisitOrder Bytes Bytes) (labels : FinMap Bytes Bytes) :
    (order.visit labels).length = labels.keys.card := by
  rw [FinMap.card_keys_eq (order.nodup_keys labels) fun k => ?_, List.length_map]
  constructor
  · intro hk
    obtain ⟨e, he, rfl⟩ := List.mem_map.mp hk
    exact ⟨e.2, (order.mem_visit labels e.1 e.2).mp he⟩
  · rintro ⟨v, hv⟩
    exact List.mem_map.mpr ⟨(k, v), (order.mem_visit labels k v).mpr hv, rfl⟩

/-- What is written is read back, field by field. -/
theorem read_serializePlaintext (order : FinMap.VisitOrder Bytes Bytes) {w : HdWallet}
    (hsized : w.payload.Sized) (hne : w.privkeys ≠ []) :
    read (w.serializePlaintext order) = .ok w.payload := by
  have hlabels : ∀ e ∈ order.visit w.labels, e.1.length < 2 ^ 64 ∧ e.2.length < 2 ^ 64 :=
    fun e he => hsized.label e.1 e.2 ((order.mem_visit w.labels e.1 e.2).mp he)
  have hcount : (order.visit w.labels).length < 2 ^ 64 := by
    rw [length_visit]
    exact hsized.labels
  have hentropy : w.mnemonicEntropy.length < 2 ^ 64 := hsized.mnemonicEntropy
  have hseed : w.masterSeed.length < 2 ^ 64 := hsized.masterSeed
  have hkeyCount : w.privkeys.length < 2 ^ 64 := hsized.privkeys
  have hkeys : w.privkeys.length ≠ 0 := fun h => hne (List.eq_nil_of_length_eq_zero h)
  have hkeyList : ∀ rest : Bytes, readKeys (writeVarint w.privkeys.length ++
      (w.privkeys.flatMap writeBytes ++ rest)) = .ok (w.privkeys, rest) := by
    intro rest
    have hloop : readKeyLoop w.privkeys.length (w.privkeys.flatMap writeBytes ++ rest) =
        .ok (w.privkeys, rest) := readKeyLoop_flatMap hsized.privkey rest
    rw [readKeys, readCount_writeVarint hkeyCount]
    simp only [bind, Except.bind, if_neg hkeys, hloop]
  have hlabelMap : readLabels (writeVarint (order.visit w.labels).length ++
      (order.visit w.labels).flatMap fun e => writeBytes e.1 ++ writeBytes e.2) =
        .ok (w.labels, []) := by
    have hloop := readLabelLoop_flatMap hlabels ∅ []
    rw [List.append_nil, order.emplaceAll_visit] at hloop
    rw [readLabels, readCount_writeVarint hcount]
    exact hloop
  obtain ⟨rest, hwritten, hseven⟩ : ∃ rest, w.serializePlaintext order = writeU32 7 ++ rest ∧
      read7 rest = .ok w.payload := by
    refine ⟨_, rfl, ?_⟩
    rw [read7, readFormat_code]
    simp only [bind, Except.bind, readScheme_code, readNumber_writeU32,
      readField_writeBytes hentropy, readField_writeBytes hseed, hkeyList, hlabelMap]
    rfl
  have hwhole : w.serializePlaintext order ≠ [] := by
    rw [hwritten]
    exact List.cons_ne_nil _ _
  rw [read, if_neg hwhole, hwritten, roundTrip_u32]
  simp only [if_true, hseven]

/-! ## The keys that are rebuilt -/

variable {lib : KeyLib}

theorem exists_pubkeys : ∀ {privkeys : List Bytes},
    (∀ key ∈ privkeys, (lib.derivePub key).isSome) →
      ∃ pubkeys : List Bytes, privkeys.map lib.derivePub = pubkeys.map some
  | [], _ => ⟨[], rfl⟩
  | key :: privkeys, h => by
      obtain ⟨pub, hpub⟩ := Option.isSome_iff_exists.mp (h key List.mem_cons_self)
      obtain ⟨pubkeys, hrest⟩ := exists_pubkeys fun k hk => h k (List.mem_cons_of_mem _ hk)
      exact ⟨pub :: pubkeys, by rw [List.map_cons, List.map_cons, hpub, hrest]⟩

/-- The wallet of a payload whose keys have these public keys. -/
def rebuilt (lib : KeyLib) (p : WalletPayload) (pubkeys : List Bytes) : HdWallet :=
  HdWallet.syncPrimary
    { privkey := [], pubkey := [], address := []
      privkeys := p.privkeys, pubkeys := pubkeys, addresses := pubkeys.map lib.keyAddress
      addressFormat := p.addressFormat, hdScheme := p.hdScheme
      masterSeed := p.masterSeed, mnemonicEntropy := p.mnemonicEntropy
      nextHdIndex := p.nextHdIndex, labels := p.labels }

theorem restore_eq {p : WalletPayload} {pubkeys : List Bytes} (hne : p.privkeys ≠ [])
    (h : p.privkeys.map lib.derivePub = pubkeys.map some) :
    p.restore lib = .ok (rebuilt lib p pubkeys) := by
  rw [restore, if_neg hne, HdWallet.restoreKeys_eq h]
  rfl

theorem rebuilt_matched {p : WalletPayload} {pubkeys : List Bytes}
    (h : p.privkeys.map lib.derivePub = pubkeys.map some) : (rebuilt lib p pubkeys).Matched lib :=
  ⟨h, rfl, rfl⟩

theorem restoreKeys_ok : ∀ {privkeys pubkeys addresses : List Bytes},
    restoreKeys lib privkeys = .ok (pubkeys, addresses) →
      privkeys.map lib.derivePub = pubkeys.map some ∧ addresses = pubkeys.map lib.keyAddress
  | [], pubkeys, addresses, h => by
      cases h
      exact ⟨rfl, rfl⟩
  | key :: privkeys, pubkeys, addresses, h => by
      rw [restoreKeys] at h
      cases hpub : lib.derivePub key with
      | none =>
          rw [hpub] at h
          cases h
      | some pub =>
          rw [hpub] at h
          simp only [KeyLib.walletAddress_eq] at h
          cases hrest : restoreKeys lib privkeys with
          | error e =>
              rw [hrest] at h
              cases h
          | ok res =>
              obtain ⟨pubs, addrs⟩ := res
              rw [hrest] at h
              cases h
              obtain ⟨hmap, rfl⟩ := restoreKeys_ok hrest
              exact ⟨by rw [List.map_cons, List.map_cons, hpub, hmap], rfl⟩

/-- Whatever the payload, a wallet that is read has keys, and its lists match. -/
theorem matched_of_deserializePlaintext {data : Bytes} {w : HdWallet}
    (h : deserializePlaintext lib data = .ok w) : w.privkeys ≠ [] ∧ w.Matched lib := by
  obtain ⟨p, -, hrestore⟩ := Bridge.bind_eq_ok.mp h
  rw [restore] at hrestore
  split at hrestore
  · cases hrestore
  · next hne =>
      cases hkeys : restoreKeys lib p.privkeys with
      | error e =>
          rw [hkeys] at hrestore
          cases hrestore
      | ok res =>
          obtain ⟨pubkeys, addresses⟩ := res
          rw [hkeys] at hrestore
          cases hrestore
          obtain ⟨hpubkeys, rfl⟩ := restoreKeys_ok hkeys
          exact ⟨hne, hpubkeys, rfl, rfl⟩

/-- The payload of a wallet restores the wallet: its fields, and the public keys
and the addresses of its private keys by index. -/
theorem deserializePlaintext_serializePlaintext (lib : KeyLib)
    (order : FinMap.VisitOrder Bytes Bytes) {w : HdWallet} (hsized : w.payload.Sized)
    (hne : w.privkeys ≠ []) (hvalid : ∀ key ∈ w.privkeys, (lib.derivePub key).isSome) :
    ∃ w', deserializePlaintext lib (w.serializePlaintext order) = .ok w' ∧
      w'.payload = w.payload ∧ w'.Matched lib ∧ (w.Matched lib → w' = w) := by
  obtain ⟨pubkeys, hpubkeys⟩ := exists_pubkeys hvalid
  have hrestore : w.payload.restore lib = .ok (rebuilt lib w.payload pubkeys) :=
    restore_eq hne hpubkeys
  refine ⟨rebuilt lib w.payload pubkeys, ?_, rfl, rebuilt_matched hpubkeys, fun hmatched => ?_⟩
  · rw [deserializePlaintext, read_serializePlaintext order hsized hne]
    exact hrestore
  · have haddresses : w.addresses ≠ [] := by
      intro hnil
      have hlen := hmatched.length_eq
      rw [hnil] at hlen
      exact hne (List.eq_nil_of_length_eq_zero hlen)
    have hself := hmatched.restore haddresses
    rw [hrestore] at hself
    exact Except.ok.inj hself

def bytesRank (b : Bytes) : Nat := Encodable.encode (b.map UInt8.toNat)

theorem bytesRank_injective : Function.Injective bytesRank := fun _ _ h =>
  List.map_injective_iff.mpr (fun _ _ => UInt8.toNat_inj.mp) (Encodable.encode_injective h)

/-- A wallet with one key and one label. -/
def labelled : HdWallet :=
  rebuilt sampleLib
    ⟨.hex, .bip32, 1, List.replicate 16 0, sampleSeed, [(sampleKey 1).priv],
      (∅ : FinMap Bytes Bytes).insert [97] [98]⟩ [(sampleKey 1).pub]

theorem deserializePlaintext_labelled :
    deserializePlaintext sampleLib
      (labelled.serializePlaintext (.byRank bytesRank bytesRank_injective)) = .ok labelled := by
  have hsized : labelled.payload.Sized := by
    refine ⟨by decide, by decide, by decide, fun key hkey => ?_, by decide,
      fun key label hlabel => ?_⟩
    · rw [List.mem_singleton.mp hkey]
      decide
    · have hlabels : labelled.payload.labels = (∅ : FinMap Bytes Bytes).insert [97] [98] := rfl
      rw [hlabels, FinMap.lookup_insert_ite] at hlabel
      split at hlabel
      · next hkey =>
          cases hlabel
          rw [hkey]
          decide
      · cases hlabel
  obtain ⟨w', hread, -, -, hsame⟩ := deserializePlaintext_serializePlaintext sampleLib
    (.byRank bytesRank bytesRank_injective) hsized (List.cons_ne_nil _ _) fun _ _ => rfl
  rw [hread, hsame (rebuilt_matched rfl)]

end WalletPayload

end Cryptex
