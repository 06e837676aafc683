import Cryptex.Block
import Cryptex.Wallet

/-!
# Keys of the wallet

The key material of `wallet.cpp`: derivation from the seed, imported keys, the
saved payload and the operations that change the list of addresses. OpenSSL is
a parameter.
-/

namespace Cryptex

open Encoding

/-- SHA-256, RIPEMD-160, the two halves of HMAC-SHA512, the compressed public
key of a secret, the DER form of a secret and the public key of a DER key. -/
structure KeyLib where
  sha256 : Bytes → Hash256
  ripemd160 : Bytes → Payload
  hmacSha512 : Bytes → Bytes → Hash256 × Hash256
  compressedPub : Hash256 → Option Bytes
  encodePriv : Hash256 → Option Bytes
  derivePub : Bytes → Option Bytes

/-- How a call ends early: with an exception, or in a loop that still runs. -/
inductive Stop where
  | thrown (e : WalletError)
  | running
deriving DecidableEq

def Stop.message (text : String) : Stop := .thrown (.message text)

structure Keypair where
  priv : Bytes
  pub : Bytes
deriving DecidableEq

inductive HdScheme where
  | none
  | legacyCxhd
  | bip32
deriving DecidableEq

structure BIP32Node where
  secret : Hash256
  chainCode : Hash256

/-! ## Derivation -/

def secp256k1Order : Nat := 0xFFFFFFFFFFFFFFFFFFFFFFFFFFFFFFFEBAAEDCE6AF48A03BBFD25E8CD0364141

def bip32Hardened : UInt32 := 0x80000000

def bip32AccountZero : UInt32 := bip32Hardened

def bip32ExternalChain : UInt32 := 0

namespace KeyLib

variable (lib : KeyLib)

/-- `keypair_from_secret`: no key for a secret outside the group. -/
def keypairFromSecret (secret : Hash256) : Except Stop (Option Keypair) :=
  if secret.toNat = 0 ∨ secp256k1Order ≤ secret.toNat then .ok none
  else
    match lib.encodePriv secret with
    | none => .ok none
    | some priv =>
        match lib.derivePub priv with
        | none => .error (.message "decode priv failed")
        | some pub => .ok (some ⟨priv, pub⟩)

def legacyData (index : UInt32) (attempt : Nat) : Bytes :=
  chars "CXHD" ++ writeU32 index ++ [UInt8.ofNat attempt]

/-- The loop of `derive_legacy_hd_keypair` over the attempts that are left. -/
def legacyAttempts (seed : Bytes) (index : UInt32) : List Nat → Except Stop Keypair
  | [] => .error (.message "failed to derive HD child key")
  | attempt :: rest =>
      match lib.keypairFromSecret (lib.hmacSha512 seed (legacyData index attempt)).1 with
      | .error e => .error e
      | .ok (some kp) => .ok kp
      | .ok none => legacyAttempts seed index rest

def deriveLegacyHdKeypair (seed : Bytes) (index : UInt32) : Except Stop Keypair :=
  lib.legacyAttempts seed index (List.range 255)

def deriveBip32Master (seed : Bytes) : Except Stop BIP32Node :=
  let digest := lib.hmacSha512 (chars "Bitcoin seed") seed
  if digest.1.toNat ≠ 0 ∧ digest.1.toNat < secp256k1Order then .ok ⟨digest.1, digest.2⟩
  else .error (.message "BIP32 master key invalid")

/-- What a child is derived from. -/
def bip32ChildData (parent : BIP32Node) (index : UInt32) : Except Stop Bytes :=
  if index ≥ bip32Hardened then
    .ok (0 :: parent.secret.toBytes ++ toPaddedBytes 4 index.toNat)
  else
    match lib.compressedPub parent.secret with
    | none => .error (.message "public key derivation failed")
    | some pubkey =>
        if pubkey.length ≠ 33 then .error (.message "BIP32 compressed pubkey size invalid")
        else .ok (pubkey ++ toPaddedBytes 4 index.toNat)

def deriveBip32Child (parent : BIP32Node) (index : UInt32) : Except Stop BIP32Node := do
  let data ← lib.bip32ChildData parent index
  let digest := lib.hmacSha512 parent.chainCode.toBytes data
  let tweak := digest.1.toNat
  let child := (tweak + parent.secret.toNat) % secp256k1Order
  if tweak = 0 ∨ secp256k1Order ≤ tweak ∨ child = 0 then
    throw (.message "BIP32 child derivation invalid")
  return ⟨BitVec.ofNat 256 child, digest.2⟩

def deriveBip32Keypair (seed : Bytes) (index : UInt32) : Except Stop Keypair := do
  if index ≥ bip32Hardened then throw (.message "BIP32 child index exhausted")
  let master ← lib.deriveBip32Master seed
  let account ← lib.deriveBip32Child master bip32AccountZero
  let external ← lib.deriveBip32Child account bip32ExternalChain
  let child ← lib.deriveBip32Child external index
  match ← lib.keypairFromSecret child.secret with
  | none => throw (.message "BIP32 child key material invalid")
  | some kp => return kp

def deriveWalletKeypair (scheme : HdScheme) (seed : Bytes) (index : UInt32) :
    Except Stop Keypair :=
  match scheme with
  | .legacyCxhd => lib.deriveLegacyHdKeypair seed index
  | .bip32 => lib.deriveBip32Keypair seed index
  | .none => .error (.message "wallet is not HD-enabled")

/-- `pubkey_to_address`. -/
def pubkeyToAddress (pub : Bytes) : Option Bytes :=
  addressTo lib.sha256 .base58check
    (base64Encode (lib.ripemd160 (Hash256.toBytes (lib.sha256 pub))).bytes)

/-- The canonical form of `pubkey_to_address`, as it is kept. -/
def walletAddress (pub : Bytes) : Except Stop Bytes :=
  match (lib.pubkeyToAddress pub).bind (canonicalizeAddress lib.sha256) with
  | none => .error (.thrown .invalidAddress)
  | some address => .ok address

end KeyLib

/-! ## The wallet and its payload -/

structure HdWallet extends Wallet where
  pubkey : Bytes
  addressFormat : Format
  hdScheme : HdScheme
  masterSeed : Bytes
  mnemonicEntropy : Bytes
  nextHdIndex : UInt32
  labels : FinMap Bytes Bytes

/-- What `serialize_plaintext` writes. -/
structure WalletPayload where
  addressFormat : Format
  hdScheme : HdScheme
  nextHdIndex : UInt32
  mnemonicEntropy : Bytes
  masterSeed : Bytes
  privkeys : List Bytes
  labels : FinMap Bytes Bytes

/-- What the wallet reads of the chain: the approval, the height, the unspent
outputs in the order in which the map is traversed, and the blocks that
`get_block` returns up to that height. -/
structure ChainReader where
  approved : Bool
  bestHeight : UInt64
  utxo : UTXOSet
  order : FinMap.VisitOrder OutPoint UTXOEntry
  blocks : List Block

section

variable (lib : KeyLib)

/-- `address_has_chain_activity`. -/
def ChainReader.hasActivity (chain : ChainReader) (address : Bytes) : Except Stop Bool :=
  match canonicalizeAddress lib.sha256 address with
  | none => .error (.thrown .invalidAddress)
  | some canonical =>
      .ok (chain.blocks.any fun blk => blk.transactions.toList.any fun tx =>
        tx.outputs.toList.any fun out => addressesEqual lib.sha256 out.scriptPubKey.toList canonical)

/-- The public keys and the addresses that `deserialize_plaintext` computes. -/
def restoreKeys : List Bytes → Except Stop (List Bytes × List Bytes)
  | [] => .ok ([], [])
  | key :: rest =>
      match lib.derivePub key with
      | none => .error (.message "decode priv failed")
      | some pub =>
          match lib.walletAddress pub with
          | .error e => .error e
          | .ok address =>
              match restoreKeys rest with
              | .error e => .error e
              | .ok (pubs, addresses) => .ok (pub :: pubs, address :: addresses)

namespace HdWallet

/-- `sync_primary`. Without keys the three fields are cleared. -/
def syncPrimary (w : HdWallet) : HdWallet :=
  { w with
    privkey := w.privkeys.headD []
    pubkey := w.pubkeys.headD []
    address := w.addresses.headD [] }

/-- `append_key`. -/
def appendKey (kp : Keypair) (w : HdWallet) : Except Stop HdWallet :=
  match lib.walletAddress kp.pub with
  | .error e => .error e
  | .ok address =>
      .ok { w with
        privkeys := w.privkeys ++ [kp.priv]
        pubkeys := w.pubkeys ++ [kp.pub]
        addresses := w.addresses ++ [address] }.syncPrimary

def payload (w : HdWallet) : WalletPayload where
  addressFormat := w.addressFormat
  hdScheme := w.hdScheme
  nextHdIndex := w.nextHdIndex
  mnemonicEntropy := w.mnemonicEntropy
  masterSeed := w.masterSeed
  privkeys := w.privkeys
  labels := w.labels

end HdWallet

/-- What `deserialize_plaintext` builds. -/
def WalletPayload.restore (p : WalletPayload) : Except Stop HdWallet :=
  if p.privkeys = [] then .error (.message "wallet has no keys")
  else
    match restoreKeys lib p.privkeys with
    | .error e => .error e
    | .ok (pubkeys, addresses) =>
        .ok (HdWallet.syncPrimary
          { privkey := [], pubkey := [], address := []
            privkeys := p.privkeys, pubkeys := pubkeys, addresses := addresses
            addressFormat := p.addressFormat, hdScheme := p.hdScheme
            masterSeed := p.masterSeed, mnemonicEntropy := p.mnemonicEntropy
            nextHdIndex := p.nextHdIndex, labels := p.labels })

namespace HdWallet

/-- `display_address`. -/
def displayAddress (w : HdWallet) (address : Bytes) : Option Bytes :=
  (canonicalizeAddress lib.sha256 address).bind (addressTo lib.sha256 w.addressFormat)

/-- `normalize_label_key`. -/
def normalizeLabelKey (address : Bytes) : Bytes :=
  (canonicalizeAddress lib.sha256 address).getD address

/-! ## The operations -/

/-- The next key of the seed, appended. -/
def deriveNext (w : HdWallet) : Except Stop HdWallet :=
  match lib.deriveWalletKeypair w.hdScheme w.masterSeed w.nextHdIndex with
  | .error e => .error e
  | .ok kp => appendKey lib kp { w with nextHdIndex := w.nextHdIndex + 1 }

/-- What an operation does between `load` and `save_encrypted`: the wallet it
leaves, also when it throws, whether it saves, and what it returns. -/
abbrev Body (α : Type) := HdWallet → HdWallet × Except Stop (Bool × α)

/-- A seed for a wallet that has none. -/
def withSeed (randomSeed : Bytes) (w : HdWallet) : HdWallet :=
  if w.masterSeed = [] then { w with hdScheme := .bip32, masterSeed := randomSeed }
  else if w.hdScheme = .none then { w with hdScheme := .bip32 }
  else w

/-- `add_address`. -/
def addAddress (randomSeed : Bytes) : Body (Option Bytes) := fun w =>
  let w := w.withSeed randomSeed
  match w.deriveNext lib with
  | .error e => (w, .error e)
  | .ok w' => (w', .ok (true, w'.displayAddress lib (w'.addresses.getLastD [])))

/-- The label of an imported address, when one is given. -/
def withLabel (importedAddress label : Bytes) (w : HdWallet) : HdWallet :=
  if label = [] then w
  else { w with labels := w.labels.insert (normalizeLabelKey lib importedAddress) label }

/-- `import_private_key_hex`. -/
def importPrivateKeyHex (privateKeyHex label : Bytes) : Body (Option Bytes) := fun w =>
  match hexDecode privateKeyHex with
  | none => (w, .error (.message "Invalid hex string"))
  | some raw =>
      if raw.length ≠ 32 then (w, .error (.message "private key must be 32 bytes in hex"))
      else
        match lib.keypairFromSecret (Hash256.ofBytes raw) with
        | .error e => (w, .error e)
        | .ok none => (w, .error (.message "invalid secp256k1 private key"))
        | .ok (some kp) =>
            match lib.walletAddress kp.pub with
            | .error e => (w, .error e)
            | .ok importedAddress =>
                match w.addresses.find? (addressesEqual lib.sha256 · importedAddress) with
                | some existing =>
                    let w' := w.withLabel lib importedAddress label
                    (w', .ok (decide (label ≠ []), w'.displayAddress lib existing))
                | none =>
                    match appendKey lib kp w with
                    | .error e => (w, .error e)
                    | .ok w' =>
                        let w' := w'.withLabel lib importedAddress label
                        (w', .ok (true, w'.displayAddress lib importedAddress))

/-- `std::rotate` of one row to the front. -/
def rotatePrimary {α : Type} (index : Nat) (rows : List α) : List α :=
  match rows[index]? with
  | none => rows
  | some row => row :: rows.eraseIdx index

/-- `set_primary_address`. -/
def setPrimaryAddress (addressValue : Bytes) : Body Unit := fun w =>
  match canonicalizeAddress lib.sha256 addressValue with
  | none => (w, .error (.thrown .invalidAddress))
  | some target =>
      match w.addresses.findIdx? (addressesEqual lib.sha256 · target) with
      | none => (w, .error (.message "address not found in wallet"))
      | some 0 => (w, .ok (false, ()))
      | some index =>
          ({ w with
              privkeys := rotatePrimary index w.privkeys
              pubkeys := rotatePrimary index w.pubkeys
              addresses := rotatePrimary index w.addresses }.syncPrimary, .ok (true, ()))

/-- `count_unused_addresses`. -/
def countUnused (chain : ChainReader) : List Bytes → Except Stop Nat
  | [] => .ok 0
  | candidate :: rest =>
      match chain.hasActivity lib candidate with
      | .error e => .error e
      | .ok active =>
          match countUnused chain rest with
          | .error e => .error e
          | .ok count => .ok (if active then count else count + 1)

/-- The loop of `ensure_unused_pool`, with the number of addresses that are
missing. -/
def fillPool : Nat → HdWallet → HdWallet × Except Stop Unit
  | 0, w => (w, .ok ())
  | missing + 1, w =>
      match w.deriveNext lib with
      | .error e => (w, .error e)
      | .ok w' => fillPool missing w'

/-- `ensure_unused_pool`. -/
def ensureUnusedPool (chain : ChainReader) (minUnused : UInt32) : Body Unit := fun w =>
  let minUnused := if minUnused = 0 then 1 else minUnused
  if w.hdScheme = .none ∨ w.masterSeed = [] then (w, .ok (false, ()))
  else
    match countUnused lib chain w.addresses with
    | .error e => (w, .error e)
    | .ok unused =>
        let missing := minUnused.toNat - unused
        match fillPool lib missing w with
        | (w', .error e) => (w', .error e)
        | (w', .ok ()) => (w', .ok (decide (missing ≠ 0), ()))

/-- The counters of the loop of `rescan`. -/
structure Scan where
  index : UInt32
  targetIndex : UInt32
  trailingUnused : UInt32

/-- The counters after an index. -/
def Scan.next (gapLimit : UInt32) (active : Bool) (s : Scan) : Scan :=
  if active then
    { index := s.index + 1
      targetIndex := max s.targetIndex (s.index + gapLimit + 1)
      trailingUnused := 0 }
  else { s with index := s.index + 1, trailingUnused := s.trailingUnused + 1 }

/-- The key of an index as `rescan` treats it: appended when the wallet holds
no more addresses than the index. -/
def adopt (index : UInt32) (kp : Keypair) (w : HdWallet) : Except Stop HdWallet :=
  if index.toNat ≥ w.addresses.length then appendKey lib kp w else .ok w

/-- The activity of a derived address. -/
def derivedActivity (chain : ChainReader) (kp : Keypair) : Except Stop Bool :=
  match lib.pubkeyToAddress kp.pub with
  | none => .error (.thrown .invalidAddress)
  | some derived => chain.hasActivity lib derived

/-- The loop of `rescan`. -/
def rescanLoop (chain : ChainReader) (gapLimit : UInt32) :
    Nat → Scan → HdWallet → HdWallet × Except Stop Unit
  | 0, _, w => (w, .error .running)
  | fuel + 1, s, w =>
      if s.index < s.targetIndex ∨ s.trailingUnused < gapLimit then
        match lib.deriveWalletKeypair w.hdScheme w.masterSeed s.index with
        | .error e => (w, .error e)
        | .ok kp =>
            match adopt lib s.index kp w with
            | .error e => (w, .error e)
            | .ok w' =>
                match derivedActivity lib chain kp with
                | .error e => (w', .error e)
                | .ok active => rescanLoop chain gapLimit fuel (s.next gapLimit active) w'
      else (w, .ok ())

/-- `rescan`. -/
def rescan (chain : ChainReader) (gapLimit : UInt32) (fuel : Nat) : Body Nat := fun w =>
  if w.hdScheme = .none ∨ w.masterSeed = [] then (w, .error (.message "wallet is not HD-backed"))
  else
    let gapLimit := if gapLimit = 0 then 1 else gapLimit
    let start : Scan :=
      { index := 0
        targetIndex := max w.nextHdIndex (UInt32.ofNat w.addresses.length)
        trailingUnused := 0 }
    match rescanLoop lib chain gapLimit fuel start w with
    | (w', .error e) => (w', .error e)
    | (w', .ok ()) =>
        ({ w' with nextHdIndex := UInt32.ofNat w'.addresses.length },
          .ok (true, w'.addresses.length - w.addresses.length))

/-- `create_new` and `create_from_mnemonic` from the seed on. -/
def createFromSeed (addressFormat : Format) (mnemonicEntropy masterSeed : Bytes) :
    Except Stop HdWallet :=
  deriveNext lib
    { privkey := [], pubkey := [], address := [], privkeys := [], pubkeys := [], addresses := []
      addressFormat := addressFormat, hdScheme := .bip32, masterSeed := masterSeed
      mnemonicEntropy := mnemonicEntropy, nextHdIndex := 0, labels := ∅ }

/-! ## Unspent outputs -/

/-- `coinbase_is_mature_for_spend`. -/
def coinbaseIsMatureForSpend (chainHeight coinbaseHeight : UInt32) : Bool :=
  decide (chainHeight.toNat + 1 ≥ coinbaseHeight.toNat + Constants.coinbaseMaturity.toNat)

/-- `UTXOSet::list_for_address`. -/
def listForAddress (chain : ChainReader) (address : Bytes) (includeImmature : Bool) :
    List (OutPoint × UTXOEntry) :=
  (chain.order.visit chain.utxo).filter fun u =>
    addressesEqual lib.sha256 u.2.output.scriptPubKey.toList address &&
      (includeImmature || !u.2.isCoinbase ||
        coinbaseIsMatureForSpend chain.bestHeight.toUInt32 u.2.blockHeight)

/-- `list_unspent`. -/
def listUnspent (w : HdWallet) (chain : ChainReader) : List (OutPoint × UTXOEntry) :=
  if chain.approved then w.addresses.flatMap fun a => listForAddress lib chain a false else []

structure BalanceSummary where
  spendable : Int64
  immature : Int64
  locked : Int64
  approved : Bool
deriving DecidableEq

/-- One output in the loop of `balance_summary`. -/
def BalanceSummary.count (currentHeight : UInt32) (summary : BalanceSummary) (entry : UTXOEntry) :
    BalanceSummary :=
  if !summary.approved then { summary with locked := summary.locked + entry.output.value }
  else if entry.isCoinbase && !coinbaseIsMatureForSpend currentHeight entry.blockHeight then
    { summary with immature := summary.immature + entry.output.value }
  else { summary with spendable := summary.spendable + entry.output.value }

/-- The summary of a list of outputs. -/
def summarize (chain : ChainReader) (coins : List (OutPoint × UTXOEntry)) : BalanceSummary :=
  coins.foldl (fun summary u => summary.count chain.bestHeight.toUInt32 u.2)
    { spendable := 0, immature := 0, locked := 0, approved := chain.approved }

/-- `balance_summary`. -/
def balanceSummary (w : HdWallet) (chain : ChainReader) : BalanceSummary :=
  summarize chain (w.addresses.flatMap fun a => listForAddress lib chain a true)

end HdWallet

/-! ## Calls -/

/-- The wallet object and the payload in its file. -/
structure WalletSession where
  wallet : HdWallet
  file : Option WalletPayload

/-- Whether the file can be read and written in a call. -/
structure FileAccess where
  readable : Bool
  writable : Bool

namespace WalletSession

/-- `Wallet::load`, assigned to the object. -/
def load (access : FileAccess) (s : WalletSession) : Except Stop HdWallet :=
  match s.file with
  | none => .error (.message "wallet file not found")
  | some p => if access.readable then p.restore lib else .error (.message "failed to open wallet file")

/-- One member function, from `load` to `save_encrypted`. -/
def call {α : Type} (access : FileAccess) (body : HdWallet.Body α) (s : WalletSession) :
    WalletSession × Except Stop α :=
  match s.load lib access with
  | .error e => (s, .error e)
  | .ok loaded =>
      match body loaded with
      | (w, .error e) => ({ s with wallet := w }, .error e)
      | (w, .ok (false, r)) => ({ s with wallet := w }, .ok r)
      | (w, .ok (true, r)) =>
          if access.writable then (⟨w, some w.payload⟩, .ok r)
          else ({ s with wallet := w }, .error (.message "failed to write wallet file"))

end WalletSession

inductive WalletCall where
  | addAddress (randomSeed : Bytes)
  | importPrivateKeyHex (privateKeyHex label : Bytes)
  | ensureUnusedPool (chain : ChainReader) (minUnused : UInt32)
  | rescan (chain : ChainReader) (gapLimit : UInt32) (fuel : Nat)
  | setPrimaryAddress (addressValue : Bytes)

/-- A call on a session, and whether it returned. -/
def WalletCall.run (access : FileAccess) (s : WalletSession) : WalletCall → WalletSession × Bool
  | addAddress randomSeed => (s.call lib access (HdWallet.addAddress lib randomSeed)).map id (·.isOk)
  | importPrivateKeyHex privateKeyHex label =>
      (s.call lib access (HdWallet.importPrivateKeyHex lib privateKeyHex label)).map id (·.isOk)
  | ensureUnusedPool chain minUnused =>
      (s.call lib access (HdWallet.ensureUnusedPool lib chain minUnused)).map id (·.isOk)
  | rescan chain gapLimit fuel =>
      (s.call lib access (HdWallet.rescan lib chain gapLimit fuel)).map id (·.isOk)
  | setPrimaryAddress addressValue =>
      (s.call lib access (HdWallet.setPrimaryAddress lib addressValue)).map id (·.isOk)

end

end Cryptex
