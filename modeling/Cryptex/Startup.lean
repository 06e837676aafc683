import Cryptex.Blockchain

/-!
# Opening a data directory

The constructor of `Blockchain`: the index and headers are loaded, the maps
recomputed, the UTXO set read from its snapshot or replayed from the block
files, and the stored chain is validated and cut back to its valid prefix.

`none` stands for the exceptions of the constructor: a failed `at` on one of
the maps, and a chain that disagrees with its checkpoint at the end.
-/

namespace Cryptex

/-- An empty data directory. -/
def DataDir.empty : DataDir := ⟨BlockStore.empty, ⟨none, none, none, none, none, none⟩⟩

namespace Blockchain

/-- The members before the constructor's body runs. -/
def initial (p : ChainParams) (dir : DataDir) : Blockchain where
  store := dir.store
  files := dir.files
  utxo := ∅
  mempool := Mempool.empty
  bestHeight := 0
  tipHash := 0
  tipBits := p.powLimitBits
  heightMap := []
  index := ∅
  linkIndex := ∅
  heightIndex := ∅
  chainWork := ∅
  children := ∅
  blockPool := ∅
  blockHeight := ∅
  localCheckpoint := none
  manualCheckpointPinned := false
  syncApproval := none

/-! ## Index, headers and block files -/

/-- `load_index`: the active ids, each with a placeholder header. -/
def loadIndex (s : Blockchain) : Blockchain :=
  match s.files.index with
  | none => s
  | some ids =>
      { s with
        heightMap := ids
        index := FinMap.insertAll s.index (ids.map fun id => (id, ({} : BlockHeader))) }

section

variable (c : Crypto) (p : ChainParams) (env : Env)

/-- The cumulative work of the active ids from height `h` on, entered into
`chain_work_` one by one. -/
def activeWork (s : Blockchain) : Nat → List Hash512 → Option Blockchain
  | _, [] => some s
  | h, id :: rest =>
      match s.index.lookup id with
      | none => none
      | some hdr =>
          let before :=
            if h = 0 then some 0
            else (s.linkIndex.lookup hdr.prevBlockHash).bind s.chainWork.lookup
          match before with
          | none => none
          | some work =>
              activeWork
                { s with chainWork := s.chainWork.insert id (work + blockWork p hdr.bits) }
                (h + 1) rest

/-- The loop of `load_headers` over the active ids. -/
def noteActive (s : Blockchain) : Nat → List Hash512 → Option Blockchain
  | _, [] => some s
  | h, id :: rest =>
      match s.index.lookup id with
      | none => none
      | some hdr =>
          noteActive
            { s with
              bestHeight := h
              tipHash := id
              tipBits := hdr.bits
              linkIndex := s.linkIndex.insert (hdr.hash c) id
              heightIndex := s.heightIndex.insert id h
              blockHeight := s.blockHeight.insert id h }
            (h + 1) rest

/-- `load_headers`. -/
def loadHeaders (s : Blockchain) : Option Blockchain :=
  match s.files.headers with
  | none => some s
  | some entries =>
      let s :=
        { s with
          index := FinMap.insertAll s.index entries
          linkIndex := FinMap.insertAll s.linkIndex (entries.map fun e => (e.2.hash c, e.1)) }
      (noteActive c s 0 s.heightMap).bind fun s => activeWork p s 0 s.heightMap

/-- The height files from `h` on, up to the first that is missing. -/
def blockFilesFrom (st : BlockStore) : Nat → Nat → List Block
  | 0, _ => []
  | fuel + 1, h =>
      match st.load h with
      | none => []
      | some blk => blk :: blockFilesFrom st fuel (h + 1)

/-- `rebuild_from_blocks`. -/
def rebuildFromBlocks (s : Blockchain) : Option Blockchain :=
  let blocks := blockFilesFrom s.store s.store.heightFiles.keys.card 0
  let ids := blocks.map fun blk => blk.header.powHash c
  let s :=
    { s with
      heightMap := ids
      index := FinMap.insertAll ∅ (blocks.map fun blk => (blk.header.powHash c, blk.header))
      linkIndex := FinMap.insertAll ∅ (blocks.map fun blk => (blk.header.hash c, blk.header.powHash c))
      heightIndex := FinMap.insertAll ∅ ids.zipIdx
      chainWork := ∅
      blockHeight := FinMap.insertAll ∅ ids.zipIdx
      blockPool := FinMap.insertAll ∅ (blocks.map fun blk => (blk.header.powHash c, blk))
      children := ∅ }
  match blocks.getLast? with
  | none => some s
  | some last =>
      (activeWork p
        { s with
          bestHeight := ids.length - 1
          tipHash := last.header.powHash c
          tipBits := last.header.bits } 0 ids).map
        fun s => persistHeaders env (saveIndex env s)

/-! ## Genesis -/

/-- The loop of `ensure_genesis` over the active ids of a loaded chain. -/
def ensureActive (s : Blockchain) : Nat → List Hash512 → Option Blockchain
  | _, [] => some s
  | h, id :: rest =>
      match s.index.lookup id with
      | none => none
      | some hdr =>
          let s :=
            { s with
              linkIndex := s.linkIndex.insert (hdr.hash c) id
              heightIndex := s.heightIndex.insert id h }
          let before :=
            if h = 0 then some 0
            else (s.linkIndex.lookup hdr.prevBlockHash).bind s.chainWork.lookup
          match before with
          | none => none
          | some work =>
              ensureActive
                { s with
                  chainWork := s.chainWork.insert id (work + blockWork p hdr.bits)
                  blockHeight := s.blockHeight.insert id h }
                (h + 1) rest

/-- The blocks of the active chain that are on disk go to the pool and to
their by-hash files. -/
def cacheActive (s : Blockchain) : List Nat → Blockchain
  | [] => s
  | h :: rest =>
      match s.store.load h with
      | none => cacheActive s rest
      | some blk =>
          cacheActive
            { s with
              blockPool := s.blockPool.insert (blk.header.powHash c) blk
              store := (s.store.storeByHash env.canWrite (blk.header.powHash c) blk).1 } rest

/-- A chain of one block. -/
def startFrom (s : Blockchain) (g : Block) : Blockchain :=
  let id := g.header.powHash c
  persistHeaders env <| saveIndex env
    { s with
      bestHeight := 0
      tipHash := id
      tipBits := g.header.bits
      heightMap := [id]
      heightIndex := s.heightIndex.insert id 0
      index := s.index.insert id g.header
      linkIndex := s.linkIndex.insert (g.header.hash c) id
      chainWork := s.chainWork.insert id (blockWork p g.header.bits)
      blockPool := s.blockPool.insert id g
      blockHeight := s.blockHeight.insert id 0
      store := (s.store.storeByHash env.canWrite id g).1
      utxo :=
        match g.transactions.toList with
        | [] => s.utxo
        | tx :: _ => (UTXOSet.applyTransaction c s.utxo tx 0).map }

/-- `ensure_genesis`. -/
def ensureGenesis (s : Blockchain) : Option Blockchain :=
  if s.heightMap ≠ [] ∧ s.index ≠ ∅ then
    let best := s.heightMap.length - 1
    let tip := s.heightMap.getLast?.getD s.tipHash
    (ensureActive c p
      { s with
        bestHeight := best
        tipHash := tip
        tipBits := ((s.index.lookup tip).map (·.bits)).getD s.tipBits } 0 s.heightMap).map
      fun s => cacheActive c env s (List.range (best + 1))
  else
    match s.store.load 0 with
    | some g => some (startFrom c p env s g)
    | none =>
        let g := Block.createGenesis c p
        some (startFrom c p env { s with store := (s.store.store env.canWrite 0 g).1 } g)

/-! ## Checkpoints, sync approval and the UTXO set -/

def loadLocalCheckpoint (s : Blockchain) : Blockchain :=
  { s with manualCheckpointPinned := false, localCheckpoint := s.files.localCheckpoint }

def loadManualCheckpoint (s : Blockchain) : Blockchain :=
  match s.files.manualCheckpoint with
  | none => s
  | some cp => { s with localCheckpoint := some cp, manualCheckpointPinned := true }

def loadSyncApproval (s : Blockchain) : Blockchain := { s with syncApproval := s.files.syncApproval }

def loadChainstateSnapshot (s : Blockchain) : Bool × Blockchain :=
  match s.files.chainstate with
  | none => (false, s)
  | some (height, tip, map) =>
      if height ≠ s.bestHeight ∨ tip ≠ s.tipHash then (false, { s with utxo := ∅ })
      else (true, { s with utxo := map })

/-- Every transaction of a block, applied whatever the results. -/
def replayBlock (map : UTXOSet) (height : Nat) (blk : Block) : UTXOSet :=
  blk.transactions.toList.foldl
    (fun map tx => (UTXOSet.applyTransaction c map tx (UInt32.ofNat height)).map) map

/-- Blocks replayed one after another, the first at height `h`. -/
def replayFrom (map : UTXOSet) : Nat → List Block → UTXOSet
  | _, [] => map
  | h, blk :: rest => replayFrom (replayBlock c map h blk) (h + 1) rest

/-- `rebuild_utxo_from_active_chain`. -/
def rebuildUtxoFromActiveChain (s : Blockchain) : Blockchain :=
  { s with utxo := replayFrom c ∅ 0 (blockFilesFrom s.store (s.bestHeight + 1) 0) }

/-- The snapshot if it belongs to the tip, otherwise a replay that is
written as the new snapshot. -/
def loadUtxo (s : Blockchain) : Blockchain :=
  match loadChainstateSnapshot s with
  | (true, s) => s
  | (false, s) => persistChainstate env (rebuildUtxoFromActiveChain c s)

/-! ## Repair -/

/-- The approval state is moved to the tip and revoked. -/
def revokeSyncApproval (s : Blockchain) (approval : SyncApprovalState) : Blockchain :=
  let approval :=
    { approval with
      approved := false
      height := s.bestHeight
      tip := s.tipHash
      networkHeight := max approval.networkHeight s.bestHeight }
  { s with
    syncApproval := some approval
    files :=
      if env.canWrite .syncApproval then { s.files with syncApproval := some approval }
      else s.files }

/-- One id behind the valid prefix of the stored chain. -/
def dropOne (s : Blockchain) (id : Hash512) : Blockchain :=
  { s with
    linkIndex :=
      match s.index.lookup id with
      | none => s.linkIndex
      | some hdr => s.linkIndex.erase (hdr.hash c)
    index := s.index.erase id
    blockPool := s.blockPool.erase id
    chainWork := s.chainWork.erase id
    blockHeight := s.blockHeight.erase id
    heightIndex := s.heightIndex.erase id
    store := s.store.removeByHash id }

/-- `repair_active_chain_if_needed`. -/
def repairActiveChainIfNeeded (s : Blockchain) : Bool × Blockchain :=
  if s.heightMap = [] then (false, s)
  else
    let validated := s.validatedPrefixLength c p env false s.heightMap
    if validated.length = s.heightMap.length then (false, s)
    else if validated.length = 0 then (false, s)
    else
      let dropped := (s.heightMap.drop validated.length).foldl (dropOne c) s
      match activatePath p env dropped (s.heightMap.take validated.length) validated.utxo
          validated.tipBits with
      | (false, s) => (false, s)
      | (true, s) =>
          let s := rebuildKnownBlockState p env s
          match s.syncApproval with
          | none => (true, s)
          | some approval =>
              if approval.height > s.bestHeight ∨ approval.tip ≠ s.tipHash then
                (true, revokeSyncApproval env s approval)
              else (true, s)

/-- The loop of `repair_height_files_from_active_index_if_needed`: the files
that were missing and could be restored, and their number. -/
def restoreHeightFiles (st : BlockStore) : Nat → List Hash512 → BlockStore × Nat
  | _, [] => (st, 0)
  | h, id :: rest =>
      if st.fileExists h then restoreHeightFiles st (h + 1) rest
      else
        match st.loadByHash id with
        | none => restoreHeightFiles st (h + 1) rest
        | some blk =>
            match st.store env.canWrite h blk with
            | (st, false) => restoreHeightFiles st (h + 1) rest
            | (st, true) =>
                let (st, repaired) := restoreHeightFiles st (h + 1) rest
                (st, repaired + 1)

/-- `repair_height_files_from_active_index_if_needed`. -/
def repairHeightFilesIfNeeded (s : Blockchain) : Bool × Blockchain :=
  let (store, repaired) := restoreHeightFiles env s.store 0 s.heightMap
  if repaired = 0 then (false, { s with store := store })
  else (true, { s with store := store.pruneHeightFilesAfter s.bestHeight })

/-- `clear_stale_local_checkpoint_if_needed`. -/
def clearStaleLocalCheckpointIfNeeded (s : Blockchain) : Bool × Blockchain :=
  match s.localCheckpoint with
  | none => (false, s)
  | some (height, _) =>
      if height ≤ s.bestHeight then (false, s)
      else
        let s :=
          { s with
            manualCheckpointPinned := false
            files :=
              if s.manualCheckpointPinned then { s.files with manualCheckpoint := none }
              else s.files
            localCheckpoint := none }
        match s.syncApproval with
        | none => (true, s)
        | some approval =>
            if approval.height > s.bestHeight then (true, revokeSyncApproval env s approval)
            else (true, s)

/-! ## The constructor -/

/-- The chain as it is loaded: index, headers, genesis and the maps
recomputed from them. -/
def loadChain (dir : DataDir) : Option Blockchain :=
  (loadHeaders c p (loadIndex (initial p dir))).bind fun s =>
    (if s.heightMap = [] ∨ s.index = ∅ then rebuildFromBlocks c p env s else some s).bind fun s =>
      (ensureGenesis c p env s).map (rebuildKnownBlockState p env)

/-- The two checkpoint files, the approval state and the UTXO set. -/
def loadState (s : Blockchain) : Blockchain :=
  loadUtxo c env (loadSyncApproval (loadManualCheckpoint (loadLocalCheckpoint s)))

/-- The checkpoint of a chain that disagrees with it is recomputed when the
chain was cut or is too short for it. -/
def settleCheckpoint (repaired : Bool) (s : Blockchain) : Blockchain :=
  if s.activeChainMatchesLocalCheckpoint then s
  else if repaired then refreshLocalCheckpoint env s
  else
    match clearStaleLocalCheckpointIfNeeded env s with
    | (true, s) => refreshLocalCheckpoint env s
    | (false, s) => s

/-- The constructor of `Blockchain`. -/
def openDir (dir : DataDir) : Option Blockchain :=
  match loadChain c p env dir with
  | none => none
  | some s =>
      let (repairedChain, s) := repairActiveChainIfNeeded c p env (loadState c env s)
      let (repairedFiles, s) := repairHeightFilesIfNeeded env s
      let s := settleCheckpoint env repairedChain s
      if !s.activeChainMatchesLocalCheckpoint then none
      else
        let s := loadUtxo c env (refreshLocalCheckpoint env s)
        some (if repairedFiles then persistChainstate env s else s)

end

end Blockchain

end Cryptex
