import Cryptex.BlockStore
import Cryptex.Mempool
import Cryptex.Validation

/-!
# The state of a `Blockchain`

The members of `blockchain.hpp`, the files of the data directory, and the
member functions that only read: lookups by hash, the walk to genesis, the
checkpoint tests and the reorganisation depth.

The height map of the source is a `std::map` whose keys are always
`0 .. best_height`; here it is the list of its values.
-/

namespace Cryptex

/-! ## Data -/

structure SyncApprovalState where
  approved : Bool := true
  height : Nat := 0
  tip : Hash512 := 0
  peerCount : Nat := 0
  networkHeight : Nat := 0
deriving DecidableEq

/-- The files next to the block files, by the data they decode to. -/
structure ChainFiles where
  index : Option (List Hash512)
  headers : Option (List (Hash512 × BlockHeader))
  chainstate : Option (Nat × Hash512 × UTXOSet)
  localCheckpoint : Option (Nat × Hash512)
  manualCheckpoint : Option (Nat × Hash512)
  syncApproval : Option SyncApprovalState

/-- A data directory. -/
structure DataDir where
  store : BlockStore
  files : ChainFiles

/-- What a call can read of the world around the program: the clock, the two
environment variables of the reorganisation policy, which files can be
written, and the order in which the header index is traversed. -/
structure Env where
  now : Nat
  maxReorgDepth : Nat := Constants.maxReorgDepth
  allowDeepReorg : Bool := false
  canWrite : Writable := fun _ => true
  visitOrder : FinMap.VisitOrder Hash512 BlockHeader

structure Blockchain where
  store : BlockStore
  files : ChainFiles
  utxo : UTXOSet
  mempool : Mempool
  bestHeight : Nat
  tipHash : Hash512
  tipBits : UInt32
  heightMap : List Hash512
  index : FinMap Hash512 BlockHeader
  /-- 256-bit header link hash to canonical 512-bit block id -/
  linkIndex : FinMap Hash256 Hash512
  /-- active chain height lookup -/
  heightIndex : FinMap Hash512 Nat
  /-- cumulative work per known header -/
  chainWork : FinMap Hash512 Nat
  /-- prev link to the ids of the blocks that name it -/
  children : FinMap Hash256 (List Hash512)
  /-- all known blocks (main and side) -/
  blockPool : FinMap Hash512 Block
  blockHeight : FinMap Hash512 Nat
  localCheckpoint : Option (Nat × Hash512)
  manualCheckpointPinned : Bool
  syncApproval : Option SyncApprovalState

namespace Blockchain

/-- The data directory as it is on disk. -/
def dataDir (s : Blockchain) : DataDir := ⟨s.store, s.files⟩

/-! ## Lookups -/

/-- `canonical_block_id_for`: a block id stands for itself, a link hash for
the id it is linked to. The argument is a `uint256_t` of either width. -/
def canonicalBlockIdFor (s : Blockchain) (hash : Nat) : Option Hash512 :=
  match (asHash 512 hash).filter fun id => (s.index.lookup id).isSome with
  | some id => some id
  | none => (asHash 256 hash).bind fun link => s.linkIndex.lookup link

def knowsHash (s : Blockchain) (hash : Nat) : Bool := (s.canonicalBlockIdFor hash).isSome

/-- The block stored under a canonical id: the pool first, then the height
file of an active height, then the by-hash file. -/
def getBlockById (s : Blockchain) (id : Hash512) : Option Block :=
  match s.blockPool.lookup id with
  | some blk => some blk
  | none =>
      match s.heightIndex.lookup id with
      | some height => s.store.load height
      | none => s.store.loadByHash id

def getBlockByHash (s : Blockchain) (hash : Nat) : Option Block :=
  match s.canonicalBlockIdFor hash with
  | none => none
  | some id => s.getBlockById id

def getHeightByHash (s : Blockchain) (hash : Nat) : Option Nat :=
  match s.canonicalBlockIdFor hash with
  | none => none
  | some id => s.heightIndex.lookup id

def getBlock (s : Blockchain) (height : Nat) : Option Block := s.store.load height

theorem canonicalBlockIdFor_id {s : Blockchain} {id : Hash512} {hdr : BlockHeader}
    (h : s.index.lookup id = some hdr) : s.canonicalBlockIdFor id.toNat = some id := by
  have hid : (asHash 512 id.toNat).filter (fun id => (s.index.lookup id).isSome) = some id := by
    rw [asHash_toNat, Option.filter_some, h]; rfl
  unfold canonicalBlockIdFor
  simp only [hid]

theorem getBlockByHash_id {s : Blockchain} {id : Hash512} {hdr : BlockHeader}
    (h : s.index.lookup id = some hdr) : s.getBlockByHash id.toNat = s.getBlockById id := by
  unfold getBlockByHash
  simp only [canonicalBlockIdFor_id h]

/-! ## The walk to genesis -/

/-- The loop of `build_path_to_genesis`: `out` holds the ids visited so far,
the last one first, so that the result needs no reversal. -/
def buildPathLoop (s : Blockchain) : Nat → List Hash512 → Hash512 → Option (List Hash512)
  | 0, _, _ => none
  | fuel + 1, out, cursor =>
      if cursor ∈ out then none
      else
        match s.index.lookup cursor with
        | none => none
        | some hdr =>
            if hdr.prevBlockHash = 0 then some (cursor :: out)
            else
              match s.linkIndex.lookup hdr.prevBlockHash with
              | none => none
              | some parent => buildPathLoop s fuel (cursor :: out) parent

/-- `build_path_to_genesis`. Every round but the last visits a new id of the
index, which bounds the number of rounds. -/
def buildPathToGenesis (s : Blockchain) (tip : Hash512) : Option (List Hash512) :=
  buildPathLoop s (s.index.keys.card + 1) [] tip

/-! ## Validation of a path of ids -/

section

variable (c : Crypto) (p : ChainParams) (env : Env)

/-- `validated_prefix_length`: the blocks of a path, read by hash and
validated in order. -/
def validatedPrefixLength (s : Blockchain) (skipPowCheck : Bool) (path : List Hash512) :
    PrefixResult :=
  validateBlocks c p env.now skipPowCheck [] ∅ s.tipBits
    (path.map fun id => s.getBlockByHash id.toNat)

end

/-! ## Checkpoint and reorganisation depth -/

/-- `candidate_matches_local_checkpoint`. -/
def candidateMatchesLocalCheckpoint (s : Blockchain) (path : List Hash512) : Bool :=
  match s.localCheckpoint with
  | none => true
  | some (height, hash) => path[height]? = some hash

/-- `active_chain_matches_local_checkpoint`. -/
def activeChainMatchesLocalCheckpoint (s : Blockchain) : Bool :=
  match s.localCheckpoint with
  | none => true
  | some (height, hash) => s.heightMap[height]? = some hash

/-- The length of the common prefix of two lists of ids. -/
def sharedPrefix : List Hash512 → List Hash512 → Nat
  | x :: xs, y :: ys => if x = y then sharedPrefix xs ys + 1 else 0
  | _, _ => 0

/-- `reorg_depth_from_candidate`: how many active blocks a candidate path
would roll back. -/
def reorgDepthFromCandidate (activeHeightMap : List Hash512) (activeBestHeight : Nat)
    (candidatePath : List Hash512) : Nat :=
  let activeSize := activeBestHeight + 1
  let shared := sharedPrefix (activeHeightMap.take activeSize) candidatePath
  if shared ≥ activeSize then 0 else activeSize - shared

/-- `expected_bits`: the bits required of a block at `height` on top of the
active chain. -/
def expectedBits (p : ChainParams) (s : Blockchain) (height : Nat) (candidateTimestamp : UInt32) :
    UInt32 :=
  if height = 0 ∨ s.heightMap = [] then p.powLimitBits
  else
    getNextWorkRequired p
      (s.heightMap.map fun id => (s.index.lookup id).getD default)
      (height - 1) s.tipBits candidateTimestamp

end Blockchain

end Cryptex
