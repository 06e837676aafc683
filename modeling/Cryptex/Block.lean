import Cryptex.ChainParams
import Cryptex.Lib.Merkle
import Cryptex.Transaction

/-!
# Blocks

`block.cpp`: headers with their two hashes, the merkle root, the proof-of-work
check, the block subsidy and the genesis block. The retarget rule of the same
file is in `Cryptex.Difficulty`.
-/

namespace Cryptex

open Codec

/-! ## Headers -/

structure BlockHeader where
  version : Int32 := 1
  prevBlockHash : Hash256 := 0
  merkleRoot : Hash256 := 0
  timestamp : UInt32 := 0
  bits : UInt32 := 0
  nonce : UInt32 := 0
deriving DecidableEq, Inhabited

namespace BlockHeader

def serialize (h : BlockHeader) : Bytes :=
  writeI32 h.version ++ h.prevBlockHash.toBytes ++ h.merkleRoot.toBytes
    ++ writeU32 h.timestamp ++ writeU32 h.bits ++ writeU32 h.nonce

def deserialize : Decoder BlockHeader UInt8 := fun data =>
  match readI32 data with
  | none => none
  | some (version, rest) =>
      match readHash256 rest with
      | none => none
      | some (prevBlockHash, rest) =>
          match readHash256 rest with
          | none => none
          | some (merkleRoot, rest) =>
              match readU32 rest with
              | none => none
              | some (timestamp, rest) =>
                  match readU32 rest with
                  | none => none
                  | some (bits, rest) => (readU32 rest).map fun p =>
                      (⟨version, prevBlockHash, merkleRoot, timestamp, bits, p.1⟩, p.2)

theorem roundTrip : RoundTrip serialize deserialize := fun h rest => by
  simp only [serialize, deserialize, List.append_assoc, roundTrip_i32 _ _,
    roundTrip_hash256 _ _, roundTrip_u32 _ _, Option.map_some]

theorem deserialize_exact {h : BlockHeader} {data rest : Bytes}
    (hdec : deserialize data = some (h, rest)) : data = h.serialize ++ rest := by
  rw [deserialize] at hdec
  cases hversion : readI32 data with
  | none => rw [hversion] at hdec; cases hdec
  | some res =>
      obtain ⟨version, r₁⟩ := res
      rw [hversion] at hdec
      simp only at hdec
      cases hprev : readHash256 r₁ with
      | none => rw [hprev] at hdec; cases hdec
      | some res =>
          obtain ⟨prev, r₂⟩ := res
          rw [hprev] at hdec
          simp only at hdec
          cases hroot : readHash256 r₂ with
          | none => rw [hroot] at hdec; cases hdec
          | some res =>
              obtain ⟨root, r₃⟩ := res
              rw [hroot] at hdec
              simp only at hdec
              cases htime : readU32 r₃ with
              | none => rw [htime] at hdec; cases hdec
              | some res =>
                  obtain ⟨timestamp, r₄⟩ := res
                  rw [htime] at hdec
                  simp only at hdec
                  cases hbits : readU32 r₄ with
                  | none => rw [hbits] at hdec; cases hdec
                  | some res =>
                      obtain ⟨bits, r₅⟩ := res
                      rw [hbits] at hdec
                      obtain ⟨⟨nonce, r₆⟩, hnonce, heq⟩ := Option.map_eq_some_iff.mp hdec
                      cases heq
                      rw [readI32_exact hversion, readHash256_exact hprev, readHash256_exact hroot,
                        readU32_exact htime, readU32_exact hbits, readU32_exact hnonce, serialize]
                      simp only [List.append_assoc]

/-- The full 512-bit proof-of-work value, which is also the block's id. -/
def powHash (c : Crypto) (h : BlockHeader) : Hash512 := c.sha3_512 h.serialize

/-- The 256-bit link by which a child names its parent. -/
def hash (c : Crypto) (h : BlockHeader) : Hash256 := c.hash256 h.serialize

/-- The link is the first half of the id. -/
theorem hash_eq_first (c : Crypto) (h : BlockHeader) : h.hash c = (h.powHash c).first := rfl

end BlockHeader

/-! ## Blocks -/

structure Block where
  header : BlockHeader
  transactions : Vec Transaction
deriving DecidableEq

namespace Block

def serialize (b : Block) : Bytes :=
  b.header.serialize ++ writeVarint b.transactions.toList.length
    ++ b.transactions.toList.flatMap fun tx => writeBytes tx.serialize

/-- One transaction of a block: a byte string that holds it. What is left of
the string is ignored. -/
def readTransaction : Decoder Transaction UInt8 := fun data =>
  match readBytes data with
  | none => none
  | some (txData, rest) => (Transaction.deserialize txData.toList).map fun p => (p.1, rest)

def deserialize : Decoder Block UInt8 := fun data =>
  match BlockHeader.deserialize data with
  | none => none
  | some (header, rest) => (readSeq readTransaction rest).map fun p => (⟨header, p.1⟩, p.2)

/-- The string hashed for an inner node of the merkle tree. -/
def nodeString (a b : Hash256) : Bytes := a.toBytes ++ b.toBytes

/-- `compute_merkle_root`: transaction ids joined level by level, the last
one of an odd level with itself; zero for a block without transactions. -/
def computeMerkleRoot (c : Crypto) (transactions : List Transaction) : Hash256 :=
  (Merkle.reduce (fun a b => c.hash256 (nodeString a b)) (transactions.map (·.hash c))).getD 0

end Block

/-! ## Proof of work -/

/-- The expanded target of bits that are usable for proof of work, as
`pow_target_valid` checks them. -/
def powTargetValid (p : ChainParams) (bits : UInt32) : Option Nat :=
  let compact : CompactTarget := ⟨bits⟩
  if compact.isNegative || compact.isZero || compact.overflows Constants.powHashBytes then none
  else if compact.expand = 0 then none
  else if compact.expand > (CompactTarget.mk p.powLimitBits).expand then none
  else some compact.expand

def Block.checkPow (c : Crypto) (p : ChainParams) (b : Block) : Bool :=
  match powTargetValid p b.header.bits with
  | none => false
  | some target => (b.header.powHash c).toNat ≤ target

/-! ## Subsidy and genesis -/

/-- The subsidy in satoshis, halved by shifting. -/
def getBlockReward (height : Nat) : Int64 :=
  let halvings := height / Constants.halvingIntervalBlocks
  if halvings ≥ 64 then 0
  else Int64.ofNat ((Constants.initialBlockReward * 100000000) >>> halvings)

namespace Block

/-- The single transaction of the genesis block. -/
def genesisCoinbase (p : ChainParams) : Transaction where
  version := 1
  inputs := ⟨[⟨⟨0, 0xFFFFFFFF⟩, ⟨[], Vec.nil_fits⟩, 0xFFFFFFFF⟩], by decide⟩
  outputs := ⟨[⟨getBlockReward 0, p.genesisAddress⟩], by simp⟩
  lockTime := 0

def genesisTemplate (c : Crypto) (p : ChainParams) : Block where
  header :=
    { version := 1
      prevBlockHash := 0
      merkleRoot := computeMerkleRoot c [genesisCoinbase p]
      timestamp := p.genesisTimestamp
      bits := p.powLimitBits
      nonce := 0 }
  transactions := ⟨[genesisCoinbase p], by simp⟩

def createGenesis (c : Crypto) (p : ChainParams) : Block :=
  let genesis := genesisTemplate c p
  { genesis with header := { genesis.header with nonce := p.genesisNonce } }

end Block

end Cryptex
