import Cryptex.Types

/-!
# Constants and network parameters

`constants.hpp` and `chainparams.cpp`, the entries that the chain logic reads.
-/

namespace Cryptex

namespace Constants

def initialBlockReward : Nat := 2500
def halvingIntervalBlocks : Nat := 200000
def blockTimeSeconds : Nat := 600
def powHashBytes : Nat := 64
def difficultyLwmaWindow : Nat := 72
def difficultyMaxSolvetime : Nat := blockTimeSeconds * 6
def difficultyMinSolvetime : Nat := blockTimeSeconds / 6
def coinbaseMaturity : UInt32 := 100
def maxBlockSizeBytes : Nat := 1000000
def maxTransactionsPerBlock : Nat := 5000
def maxReorgDepth : Nat := 2
def maxMempoolSizeBytes : Nat := 300000000
def maxMempoolTransactions : Nat := 50000
def maxMempoolOrphans : Nat := 256
def mempoolTxExpirySeconds : Nat := 2 * 60 * 60
def minRelayFeeSatsPerKb : Nat := 1000
def maxStandardTxSizeBytes : Nat := 100000
def maxStandardTxInputs : Nat := 128
def maxStandardTxOutputs : Nat := 128
def maxStandardScriptsigBytes : Nat := 1650
def dustLimitSats : Int64 := 546

end Constants

/-- The parameters of one network. -/
structure ChainParams where
  powLimitBits : UInt32
  genesisTimestamp : UInt32
  genesisAddress : Vec UInt8
  genesisNonce : UInt32
  allowMinDifficultyBlocks : Bool
  fixedDifficulty : Bool
  useEmaDifficulty : Bool
  emaWindow : UInt32
  emergencyMinDifficultyDelaySeconds : UInt32
  maxFutureBlockTimeSeconds : UInt32

namespace ChainParams

/-- `"AAECAwQFBgcICQoLDA0ODxAREhM="`. -/
def defaultGenesisAddress : Vec UInt8 :=
  ⟨[65, 65, 69, 67, 65, 119, 81, 70, 66, 103, 99, 73, 67, 81, 111, 76,
    68, 65, 48, 79, 68, 120, 65, 82, 69, 104, 77, 61], by decide⟩

def mainnet : ChainParams where
  powLimitBits := 0x3e00ffff
  genesisTimestamp := 1741478400
  genesisAddress := defaultGenesisAddress
  genesisNonce := 14590424
  allowMinDifficultyBlocks := false
  fixedDifficulty := false
  useEmaDifficulty := true
  emaWindow := 12
  emergencyMinDifficultyDelaySeconds := 1200
  maxFutureBlockTimeSeconds := 120

def testnet : ChainParams where
  powLimitBits := 0x3f00ffff
  genesisTimestamp := 1741478401
  genesisAddress := defaultGenesisAddress
  genesisNonce := 78355
  allowMinDifficultyBlocks := true
  fixedDifficulty := false
  useEmaDifficulty := true
  emaWindow := 6
  emergencyMinDifficultyDelaySeconds := 1200
  maxFutureBlockTimeSeconds := 120

def regtest : ChainParams where
  powLimitBits := 0x407fffff
  genesisTimestamp := 1741478402
  genesisAddress := defaultGenesisAddress
  genesisNonce := 8
  allowMinDifficultyBlocks := true
  fixedDifficulty := true
  useEmaDifficulty := true
  emaWindow := 4
  emergencyMinDifficultyDelaySeconds := 1200
  maxFutureBlockTimeSeconds := 1200

end ChainParams

end Cryptex
