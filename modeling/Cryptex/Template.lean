import Cryptex.Diagnosis

/-!
# Block templates

`build_block_template` of the RPC server and `build_template` of the external
miner: a coinbase for the next height, then the transactions of the mempool
in the order of their fee rates for as long as their bytes fit.

Addresses are decoded by `base64.cpp`, of which the templates use no more
than the canonical form or its absence (`Canonicalize`).
-/

namespace Cryptex

/-- `canonicalize_address`; `none` when it throws. -/
abbrev Canonicalize := Vec UInt8 → Option (Vec UInt8)

namespace Blockchain

/-! ## The coinbase -/

/-- `make_coinbase_script_sig`. -/
def makeCoinbaseScriptSig (height : Nat) (timestamp : UInt32) (prevHash : Hash256) : Vec UInt8 where
  toList := writeInt 8 height ++ writeU32 timestamp ++ prevHash.toBytes.take 8
  size_lt := by simp [writeU32]

def templateCoinbase (height : Nat) (timestamp : UInt32) (prevHash : Hash256)
    (scriptPubKey : Vec UInt8) : Transaction where
  version := 1
  inputs := ⟨[⟨⟨0, 0xFFFFFFFF⟩, makeCoinbaseScriptSig height timestamp prevHash, 0xFFFFFFFF⟩],
    by simp⟩
  outputs := ⟨[⟨getBlockReward height, scriptPubKey⟩], by simp⟩
  lockTime := 0

theorem templateCoinbase_isCoinbase (height : Nat) (timestamp : UInt32) (prevHash : Hash256)
    (scriptPubKey : Vec UInt8) :
    (templateCoinbase height timestamp prevHash scriptPubKey).isCoinbase = true := by
  simp [templateCoinbase, Transaction.isCoinbase]

/-! ## The transactions -/

/-- The transaction loop: until one does not fit. -/
def takeFitting : Nat → List Transaction → List Transaction
  | _, [] => []
  | totalSize, tx :: rest =>
      if totalSize + tx.serialize.length > Constants.maxBlockSizeBytes then []
      else tx :: takeFitting (totalSize + tx.serialize.length) rest

theorem takeFitting_sublist : ∀ (totalSize : Nat) (txs : List Transaction),
    (takeFitting totalSize txs).Sublist txs
  | _, [] => List.Sublist.refl _
  | totalSize, tx :: rest => by
      rw [takeFitting]
      split
      · exact List.nil_sublist _
      · exact (takeFitting_sublist _ rest).cons_cons _

theorem serialize_pos (tx : Transaction) : 0 < tx.serialize.length := by
  simp [Transaction.serialize, writeI32, writeU32]

/-- Every transaction takes a byte, so that there are no more than bytes. -/
theorem length_takeFitting : ∀ (totalSize : Nat) (txs : List Transaction),
    takeFitting totalSize txs = [] ∨
      totalSize + (takeFitting totalSize txs).length ≤ Constants.maxBlockSizeBytes
  | _, [] => Or.inl rfl
  | totalSize, tx :: rest => by
      rw [takeFitting]
      split
      · exact Or.inl rfl
      · next hfits =>
          right
          have hpos := serialize_pos tx
          rw [List.length_cons]
          rcases length_takeFitting (totalSize + tx.serialize.length) rest with hnil | hle
          · rw [hnil, List.length_nil]
            omega
          · omega

/-! ## The templates -/

section

variable (c : Crypto) (p : ChainParams) (env : Env)

/-- The coinbase of a template at the clock, paying to a script. -/
def nextCoinbase (s : Blockchain) (scriptPubKey : Vec UInt8) : Transaction :=
  templateCoinbase (s.bestHeight + 1) (UInt32.ofNat env.now) (s.tipLink c) scriptPubKey

/-- The pooled transactions that a template takes. -/
def chosen (s : Blockchain) (scriptPubKey : Vec UInt8) : List Transaction :=
  takeFitting (nextCoinbase c env s scriptPubKey).serialize.length s.mempool.getTransactions

theorem length_chosen (s : Blockchain) (scriptPubKey : Vec UInt8) :
    (chosen c env s scriptPubKey).length ≤ Constants.maxBlockSizeBytes := by
  rcases length_takeFitting (nextCoinbase c env s scriptPubKey).serialize.length
      s.mempool.getTransactions with hnil | hle
  · rw [chosen, hnil]
    exact Nat.zero_le _
  · rw [chosen]
    omega

/-- The block both templates build. -/
def templateBlock (s : Blockchain) (scriptPubKey : Vec UInt8) : Block :=
  let timestamp := UInt32.ofNat env.now
  let transactions := nextCoinbase c env s scriptPubKey :: chosen c env s scriptPubKey
  { header :=
      { version := 1
        prevBlockHash := s.tipLink c
        merkleRoot := Block.computeMerkleRoot c transactions
        timestamp := timestamp
        bits := s.nextWorkBits p timestamp
        nonce := 0 }
    transactions := ⟨transactions, by
      have := length_chosen c env s scriptPubKey
      rw [List.length_cons]
      simp only [Constants.maxBlockSizeBytes] at this
      omega⟩ }

/-- `build_block_template`; `none` when the address is refused. -/
def buildBlockTemplate (canonicalize : Canonicalize) (s : Blockchain)
    (coinbaseAddress : Vec UInt8) : Option Block :=
  (canonicalize coinbaseAddress).map (templateBlock c p env s)

/-- `"genesis"`. -/
def genesisName : Bytes := [103, 101, 110, 101, 115, 105, 115]

/-- The script of the external miner: an address that is refused stands for itself. -/
def minerScript (canonicalize : Canonicalize) (coinbaseAddr : Vec UInt8) : Vec UInt8 :=
  if coinbaseAddr.toList ≠ genesisName then (canonicalize coinbaseAddr).getD coinbaseAddr
  else coinbaseAddr

/-- `build_template`. -/
def buildTemplate (canonicalize : Canonicalize) (s : Blockchain) (coinbaseAddr : Vec UInt8) : Block :=
  templateBlock c p env s (minerScript canonicalize coinbaseAddr)

end

end Blockchain

end Cryptex
