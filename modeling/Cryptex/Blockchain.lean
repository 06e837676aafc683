import Cryptex.ChainState
import Cryptex.Lib.Saturate
import Cryptex.Lib.Worklist

/-!
# Accepting blocks

The member functions of `Blockchain` that change its state: writing the
small files, the local checkpoint, the maps recomputed from the header
index, the purge of an invalid subtree, the activation of a path and
`accept_block`.

`accept_block` calls itself for the orphans that waited for a block. One
pass over a block, without the orphans, is `acceptOne`; it also says at
which point of the source it ended (`Verdict`).
-/

namespace Cryptex

namespace Blockchain

/-! ## Writing the small files -/

section

variable (env : Env)

def saveIndex (s : Blockchain) : Blockchain :=
  if env.canWrite .index then { s with files := { s.files with index := some s.heightMap } }
  else s

def persistHeaders (s : Blockchain) : Blockchain :=
  if env.canWrite .headers then
    { s with files := { s.files with headers := some (env.visitOrder.visit s.index) } }
  else s

def persistChainstate (s : Blockchain) : Blockchain :=
  if env.canWrite .chainstate then
    { s with files := { s.files with chainstate := some (s.bestHeight, s.tipHash, s.utxo) } }
  else s

def persistLocalCheckpoint (s : Blockchain) : Blockchain :=
  if s.localCheckpoint.isSome && env.canWrite .localCheckpoint then
    { s with files := { s.files with localCheckpoint := s.localCheckpoint } }
  else s

def persistManualCheckpoint (s : Blockchain) : Blockchain :=
  if s.manualCheckpointPinned && s.localCheckpoint.isSome && env.canWrite .manualCheckpoint then
    { s with files := { s.files with manualCheckpoint := s.localCheckpoint } }
  else s

/-! ## The local checkpoint -/

/-- `checkpoint_height`, for a best height. -/
def checkpointHeight (bestHeight : Nat) : Nat :=
  if bestHeight > Constants.maxReorgDepth then bestHeight - Constants.maxReorgDepth else 0

theorem checkpointHeight_le (bestHeight : Nat) : checkpointHeight bestHeight ≤ bestHeight := by
  unfold checkpointHeight
  split <;> omega

def refreshLocalCheckpoint (s : Blockchain) : Blockchain :=
  if s.manualCheckpointPinned then s
  else
    let height := checkpointHeight s.bestHeight
    match s.heightMap[height]? with
    | none => s
    | some hash =>
        if s.localCheckpoint = some (height, hash) then s
        else persistLocalCheckpoint env { s with localCheckpoint := some (height, hash) }

def pinCheckpointToTip (s : Blockchain) : Blockchain :=
  persistLocalCheckpoint env <| persistManualCheckpoint env
    { s with localCheckpoint := some (s.bestHeight, s.tipHash), manualCheckpointPinned := true }

def clearCheckpointPin (s : Blockchain) : Blockchain :=
  persistLocalCheckpoint env <| refreshLocalCheckpoint env
    { s with
      manualCheckpointPinned := false
      files := { s.files with manualCheckpoint := none } }

end

/-! ## Maps recomputed from the header index -/

section

variable (p : ChainParams) (env : Env)

/-- `children_[prev].push_back(id)` for a header that is not a root. -/
def addChild (children : FinMap Hash256 (List Hash512)) (e : Hash512 × BlockHeader) :
    FinMap Hash256 (List Hash512) :=
  if e.2.prevBlockHash = 0 then children
  else
    children.insert e.2.prevBlockHash
      ((children.lookup e.2.prevBlockHash).getD [] ++ [e.1])

/-- One entry of the index in the work pass: a root gets its own work, a
header whose parent has work and height gets both from its parent; `none`
for an entry that is skipped. -/
def creditStep (s : Blockchain) (e : Hash512 × BlockHeader) : Option Blockchain :=
  if (s.chainWork.lookup e.1).isSome then none
  else if e.2.prevBlockHash = 0 then
    some
      { s with
        chainWork := s.chainWork.insert e.1 (blockWork p e.2.bits)
        blockHeight := s.blockHeight.insert e.1 0 }
  else
    match s.linkIndex.lookup e.2.prevBlockHash with
    | none => none
    | some parent =>
        match s.chainWork.lookup parent, s.blockHeight.lookup parent with
        | some work, some height =>
            some
              { s with
                chainWork := s.chainWork.insert e.1 (work + blockWork p e.2.bits)
                blockHeight := s.blockHeight.insert e.1 (height + 1)
                heightIndex := s.heightIndex.insert e.1 (height + 1) }
        | _, _ => none

/-- `rebuild_known_block_state`. Every pass that makes progress gives work to
another id of the index, which bounds the number of passes. -/
def rebuildKnownBlockState (s : Blockchain) : Blockchain :=
  Saturate.run (creditStep p) (env.visitOrder.visit s.index) (s.index.keys.card + 1)
    { s with
      children := (env.visitOrder.visit s.index).foldl addChild ∅
      chainWork := ∅
      blockHeight := FinMap.insertAll ∅ s.heightMap.zipIdx
      heightIndex := FinMap.insertAll ∅ s.heightMap.zipIdx }

/-! ## Purging -/

/-- The children recorded for a known id. -/
def kidsOf (s : Blockchain) (c : Crypto) (id : Hash512) : List Hash512 :=
  match s.index.lookup id with
  | none => []
  | some hdr => (s.children.lookup (hdr.hash c)).getD []

/-- The rounds of the worklist: one for the root and one for every child
recorded for a known id. -/
def purgeFuel (s : Blockchain) (c : Crypto) : Nat :=
  1 + s.index.keys.sum fun id => (s.kidsOf c id).length

/-- The worklist of `purge_cached_subtree`: the ids below `root`, in the order
in which they are visited. -/
def purgeList (s : Blockchain) (c : Crypto) (root : Hash512) : List Hash512 :=
  Worklist.explore (s.kidsOf c) (s.purgeFuel c) [root] []

/-- One id of the purge list; ids with an active height are kept. -/
def purgeOne (c : Crypto) (acc : Bool × Blockchain) (id : Hash512) : Bool × Blockchain :=
  let s := acc.2
  if (s.heightIndex.lookup id).isSome then acc
  else
    (acc.1 || (s.index.lookup id).isSome || (s.blockPool.lookup id).isSome ||
        (s.chainWork.lookup id).isSome || (s.blockHeight.lookup id).isSome,
      { s with
        linkIndex :=
          match s.index.lookup id with
          | none => s.linkIndex
          | some hdr => s.linkIndex.erase (hdr.hash c)
        index := s.index.erase id
        blockPool := s.blockPool.erase id
        chainWork := s.chainWork.erase id
        blockHeight := s.blockHeight.erase id
        store := s.store.removeByHash id })

/-- `purge_cached_subtree`. -/
def purgeCachedSubtree (c : Crypto) (s : Blockchain) (root : Hash512) : Blockchain :=
  let (mutated, s') := (s.purgeList c root).foldl (purgeOne c) (false, s)
  if mutated then persistHeaders env (rebuildKnownBlockState p env s') else s'

/-! ## Activating a path -/

/-- The cumulative work along a list of blocks. -/
def workAlong (before : Nat) : List (Hash512 × Block) → List (Hash512 × Nat)
  | [] => []
  | (id, blk) :: rest =>
      let work := before + blockWork p blk.header.bits
      (id, work) :: workAlong work rest

/-- The block files of a path from height `i` on, until a write fails. -/
def writePath (w : Writable) : BlockStore → Nat → List (Hash512 × Block) → BlockStore × Bool
  | st, _, [] => (st, true)
  | st, i, (id, blk) :: rest =>
      match st.store w i blk with
      | (st, false) => (st, false)
      | (st, true) =>
          match st.storeByHash w id blk with
          | (st, false) => (st, false)
          | (st, true) => writePath w st (i + 1) rest

/-- The state whose active chain is a path with the given blocks and files. -/
def adoptPath (s : Blockchain) (path : List Hash512) (blocks : List Block) (store : BlockStore)
    (newUtxo : UTXOSet) (newTipBits : UInt32) : Blockchain :=
  { s with
    store := store.pruneHeightFilesAfter (path.length - 1)
    heightMap := path
    heightIndex := FinMap.insertAll ∅ path.zipIdx
    blockHeight := FinMap.insertAll ∅ path.zipIdx
    chainWork := FinMap.insertAll ∅ (workAlong p 0 (path.zip blocks))
    bestHeight := path.length - 1
    tipHash := path.getLast?.getD s.tipHash
    tipBits := newTipBits
    utxo := newUtxo
    mempool := s.mempool.clear }

/-- `activate_path`. A write that fails leaves the block files half written
and the rest of the state alone. -/
def activatePath (s : Blockchain) (path : List Hash512) (newUtxo : UTXOSet) (newTipBits : UInt32) :
    Bool × Blockchain :=
  match path.mapM fun id => s.getBlockByHash id.toNat with
  | none => (false, s)
  | some blocks =>
      match writePath env.canWrite s.store 0 (path.zip blocks) with
      | (store, false) => (false, { s with store := store })
      | (store, true) =>
          (true,
            persistChainstate env <| persistHeaders env <| saveIndex env <|
              refreshLocalCheckpoint env (s.adoptPath p path blocks store newUtxo newTipBits))

end

/-! ## One block -/

/-- Where a pass of `accept_block` ends. -/
inductive Verdict where
  | nonCanonicalBits
  | badPow
  | badMerkle
  | txCount
  | size
  | badTimestamp
  | alreadyProcessed
  | orphan
  | parentHeightNotStored
  | noPath
  | candidateInvalid
  | checkpointMismatch
  | deepReorg
  | activationFailed
  | switched
  | sideBranch
deriving DecidableEq

/-- The value `accept_block` returns. -/
def Verdict.accepted : Verdict → Bool
  | .alreadyProcessed | .orphan | .switched | .sideBranch => true
  | _ => false

/-- The block was connected, so that the orphans waiting for it are next. -/
def Verdict.connects : Verdict → Bool
  | .switched | .sideBranch => true
  | _ => false

theorem Verdict.accepted_of_connects {v : Verdict} (h : v.connects = true) :
    v.accepted = true := by
  cases v <;> first | rfl | cases h

section

variable (c : Crypto) (p : ChainParams) (env : Env) (skipPowCheck : Bool)

/-- The id of the parent of a block, zero when it is not known. -/
def parentId (s : Blockchain) (blk : Block) : Hash512 :=
  if blk.header.prevBlockHash = 0 then 0
  else (s.linkIndex.lookup blk.header.prevBlockHash).getD 0

def parentHeader (s : Blockchain) (blk : Block) : Option BlockHeader :=
  if blk.header.prevBlockHash = 0 then none
  else (s.linkIndex.lookup blk.header.prevBlockHash).bind s.index.lookup

/-- The checks made before anything is stored. -/
def statelessCheck (s : Blockchain) (blk : Block) : Option Verdict :=
  if !skipPowCheck && blk.header.prevBlockHash ≠ 0 &&
      !(CompactTarget.mk blk.header.bits).isCanonical Constants.powHashBytes then
    some .nonCanonicalBits
  else if !skipPowCheck && blk.header.prevBlockHash ≠ 0 && !blk.checkPow c p then some .badPow
  else if Block.computeMerkleRoot c blk.transactions.toList ≠ blk.header.merkleRoot then
    some .badMerkle
  else if blk.transactions.toList.length > Constants.maxTransactionsPerBlock then some .txCount
  else if blk.serialize.length > Constants.maxBlockSizeBytes then some .size
  else if !blockTimestampValid p env.now blk.header (s.parentHeader blk) then some .badTimestamp
  else none

/-- Cache the block and its header, and write its file. -/
def cacheBlock (s : Blockchain) (blk : Block) : Blockchain :=
  let id := blk.header.powHash c
  { s with
    index := if (s.index.lookup id).isSome then s.index else s.index.insert id blk.header
    blockPool := if (s.blockPool.lookup id).isSome then s.blockPool else s.blockPool.insert id blk
    store := (s.store.storeByHash env.canWrite id blk).1
    linkIndex := s.linkIndex.insert (blk.header.hash c) id }

/-- The work of the tip, if it is known, does not exceed the candidate's. -/
def beatsTip (s : Blockchain) (candidateWork : Nat) : Bool :=
  match s.chainWork.lookup s.tipHash with
  | none => true
  | some tipWork => candidateWork > tipWork

/-- A valid path with more work than the tip: the checkpoint, the depth of
the reorganisation, and the activation. -/
def switchTo (s : Blockchain) (path : List Hash512) (newUtxo : UTXOSet) (newTipBits : UInt32) :
    Verdict × Blockchain :=
  if !s.candidateMatchesLocalCheckpoint path then (.checkpointMismatch, s)
  else if reorgDepthFromCandidate s.heightMap s.bestHeight path > env.maxReorgDepth &&
      !env.allowDeepReorg then
    (.deepReorg, s)
  else
    match activatePath p env s path newUtxo newTipBits with
    | (false, s') => (.activationFailed, s')
    | (true, s') => (.switched, s')

/-- Give a block work and height without making it active. -/
def keepAside (s : Blockchain) (id : Hash512) (height candidateWork : Nat) : Blockchain :=
  { s with
    blockHeight := s.blockHeight.insert id height
    chainWork := s.chainWork.insert id candidateWork }

/-- Queue a cached block until its parent is connected. -/
def rememberOrphan (s : Blockchain) (blk : Block) : Blockchain :=
  { s with
    children := s.children.insert blk.header.prevBlockHash
      ((s.children.lookup blk.header.prevBlockHash).getD [] ++ [blk.header.powHash c]) }

/-- A block whose parent has work and height: validate its path, then switch
to it, keep it aside, or purge it. -/
def connect (s : Blockchain) (blk : Block) (height candidateWork : Nat) : Verdict × Blockchain :=
  let id := blk.header.powHash c
  match s.buildPathToGenesis id with
  | none => (.noPath, s)
  | some path =>
      let validated := s.validatedPrefixLength c p env skipPowCheck path
      if validated.length ≠ path.length then
        (.candidateInvalid, purgeCachedSubtree p env c s id)
      else if s.beatsTip candidateWork then
        switchTo p env s path validated.utxo validated.tipBits
      else (.sideBranch, s.keepAside id height candidateWork)

/-- `accept_block` up to the orphans. The parent is looked up before the
block is cached. -/
def acceptOne (s : Blockchain) (blk : Block) : Verdict × Blockchain :=
  match s.statelessCheck c p env skipPowCheck blk with
  | some verdict => (verdict, s)
  | none =>
      let prev := blk.header.prevBlockHash
      let parent := s.parentId blk
      let s₁ := s.cacheBlock c env blk
      if (s₁.chainWork.lookup (blk.header.powHash c)).isSome then (.alreadyProcessed, s₁)
      else if prev = 0 then
        s₁.connect c p env skipPowCheck blk 0 (blockWork p blk.header.bits)
      else
        match (if parent = 0 then none else s₁.chainWork.lookup parent) with
        | none => (.orphan, s₁.rememberOrphan c blk)
        | some parentWork =>
            match s₁.blockHeight.lookup parent with
            | none => (.parentHeightNotStored, s₁)
            | some parentHeight =>
                s₁.connect c p env skipPowCheck blk (parentHeight + 1)
                  (parentWork + blockWork p blk.header.bits)

/-- The loop over the ids that waited for a block, each of them accepted by
`accept`. -/
def orphanLoop (accept : Blockchain → Block → Option (Bool × Blockchain)) :
    Blockchain → List Hash512 → Option Blockchain
  | s, [] => some s
  | s, k :: kids =>
      match s.blockPool.lookup k with
      | none => orphanLoop accept s kids
      | some blk =>
          match accept s blk with
          | none => none
          | some (_, s') => orphanLoop accept s' kids

/-- `accept_block`. The fuel bounds the depth to which orphans wait for
orphans; `none` when it runs out. -/
def acceptBlock : Nat → Blockchain → Block → Option (Bool × Blockchain)
  | 0, _, _ => none
  | fuel + 1, s, blk =>
      let (verdict, s₁) := s.acceptOne c p env skipPowCheck blk
      if verdict.connects then
        (orphanLoop (acceptBlock fuel) s₁
            ((s₁.children.lookup (blk.header.hash c)).getD [])).map
          fun s₂ => (verdict.accepted, s₂)
      else some (verdict.accepted, s₁)

end

end Blockchain

end Cryptex
