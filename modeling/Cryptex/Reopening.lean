import Cryptex.Ledger

/-!
# When a directory opens, and to what

A stored chain opens whenever its checkpoint can be settled: to the whole
chain if its blocks are valid in full or not at all, and otherwise to the
valid part. And what can be said of directories that are not in order: the
chain of the index is kept or cut, and an active id without a stored header
ends the constructor.
-/

namespace Cryptex

open Forest

/-- The tip bits do not matter for what a validation accepts. -/
theorem validateBlocks_bits {c : Crypto} {p : ChainParams} {now : Nat} {skip : Bool} :
    ∀ (bs : List (Option Block)) (hist : List BlockHeader) (map : UTXOSet) (bits bits' : UInt32),
      (validateBlocks c p now skip hist map bits bs).length
          = (validateBlocks c p now skip hist map bits' bs).length ∧
        (validateBlocks c p now skip hist map bits bs).utxo
          = (validateBlocks c p now skip hist map bits' bs).utxo
  | [], _, _, _, _ => ⟨rfl, rfl⟩
  | none :: _, _, _, _, _ => ⟨rfl, rfl⟩
  | some blk :: rest, hist, map, bits, bits' => by
      rw [validateBlocks, validateBlocks]
      cases validateBlock c p now skip hist map blk with
      | mk map' failure =>
          cases failure with
          | some f => exact ⟨rfl, rfl⟩
          | none => exact ⟨rfl, rfl⟩

/-- A validation counts at least what was accepted before. -/
theorem le_validateBlocks_length (c : Crypto) (p : ChainParams) (now : Nat) (skip : Bool) :
    ∀ (bs : List (Option Block)) (hist : List BlockHeader) (map : UTXOSet) (bits : UInt32),
      hist.length ≤ (validateBlocks c p now skip hist map bits bs).length
  | [], _, _, _ => Nat.le_refl _
  | none :: _, _, _, _ => Nat.le_refl _
  | some blk :: rest, hist, map, bits => by
      rw [validateBlocks]
      split
      · exact Nat.le_refl _
      · refine Nat.le_trans ?_ (le_validateBlocks_length c p now skip rest _ _ _)
        rw [List.length_append]
        omega

/-- A validation that stops before the end leaves the map that the refused
block leaves. -/
theorem validateBlocks_stop {c : Crypto} {p : ChainParams} {now : Nat} {skip : Bool} :
    ∀ {blocks : List Block} {hist : List BlockHeader} {map : UTXOSet} {bits : UInt32} {n : Nat}
      {blk : Block}, (validateBlocks c p now skip hist map bits (blocks.map some)).length
        = hist.length + n → blocks[n]? = some blk →
      ∃ mid, Accepts c p now skip hist map (blocks.take n) mid ∧
        (validateBlocks c p now skip hist map bits (blocks.map some)).utxo
          = (validateBlock c p now skip (hist ++ (blocks.take n).map (·.header)) mid blk).1
  | [], _, _, _, _, _, _, hblk => by cases hblk
  | b :: rest, hist, map, bits, n, blk, hlen, hblk => by
      rw [List.map_cons, validateBlocks] at hlen ⊢
      cases hv : validateBlock c p now skip hist map b with
      | mk map' failure =>
          rw [hv] at hlen
          cases failure with
          | some f =>
              obtain rfl : n = 0 := by simpa using hlen
              cases hblk
              exact ⟨map, .nil, by simp [hv]⟩
          | none =>
              simp only at hlen ⊢
              cases n with
              | zero =>
                  have hle := le_validateBlocks_length c p now skip (rest.map some)
                    (hist ++ [b.header]) map' b.header.bits
                  rw [List.length_append, List.length_singleton] at hle
                  omega
              | succ n =>
                  obtain ⟨mid, hacc, hutxo⟩ := validateBlocks_stop (n := n)
                    (hlen.trans (by rw [List.length_append, List.length_singleton]; omega)) hblk
                  refine ⟨mid, .cons hv hacc, ?_⟩
                  rw [hutxo, List.take_succ_cons, List.map_cons, List.append_assoc,
                    List.singleton_append]

namespace Blockchain

variable {c : Crypto} {p : ChainParams} {env : Env} {skip : Bool} {H : Set BlockHeader}
  {s s' : Blockchain} {dir : DataDir} {ids : List Hash512}
  {entries : List (Hash512 × BlockHeader)} {blocks : List Block}

/-- What `validated_prefix_length` yields for stored blocks when a directory
is opened. -/
def startupPrefix (c : Crypto) (p : ChainParams) (env : Env) (blocks : List Block) :
    PrefixResult :=
  validateBlocks c p env.now false [] ∅ p.powLimitBits (blocks.map some)

theorem PoolActive.startupPrefix (p : ChainParams) (env : Env) (hpool : s.PoolActive)
    (hd : s.Described c) (hs : s.IndexOk c H)
    (hlen : blocks.length = s.heightMap.length)
    (hload : ∀ k, k < s.heightMap.length → s.store.load k = blocks[k]?) :
    (s.validatedPrefixLength c p env false s.heightMap).length
        = (Blockchain.startupPrefix c p env blocks).length ∧
      (s.validatedPrefixLength c p env false s.heightMap).utxo
        = (Blockchain.startupPrefix c p env blocks).utxo := by
  obtain ⟨active, hactive, hfiles⟩ := hpool.blocksOf hd hs
  have heq : active = blocks := by
    have hlen' := hactive.length_eq
    refine List.ext_getElem? fun k => ?_
    by_cases hk : k < s.heightMap.length
    · rw [← hfiles k hk, hload k hk]
    · rw [List.getElem?_eq_none (by omega), List.getElem?_eq_none (by omega)]
  rw [validatedPrefixLength, show (s.heightMap.map fun id => s.getBlockByHash id.toNat)
    = blocks.map some from heq ▸ hactive]
  exact validateBlocks_bits _ _ _ _ _

/-! ## Checkpoints -/

/-- The checkpoint that is loaded: the manual one if there is one. -/
theorem loadState_checkpoint (c : Crypto) (env : Env) (s : Blockchain) :
    (loadState c env s).manualCheckpointPinned = s.files.manualCheckpoint.isSome ∧
      (loadState c env s).localCheckpoint
        = s.files.manualCheckpoint.or s.files.localCheckpoint := by
  obtain ⟨files, utxo, heq⟩ := loadUtxo_eq c env
    (loadSyncApproval (loadManualCheckpoint (loadLocalCheckpoint s)))
  rw [loadState, heq]
  unfold loadSyncApproval loadManualCheckpoint loadLocalCheckpoint
  cases hmanual : s.files.manualCheckpoint with
  | none => simp
  | some cp => simp

/-- A repair leaves a pinned checkpoint alone. -/
theorem repair_checkpoint (c : Crypto) (p : ChainParams) (env : Env) (s : Blockchain) :
    (repairActiveChainIfNeeded c p env s).2.manualCheckpointPinned = s.manualCheckpointPinned ∧
      (s.manualCheckpointPinned = true →
        (repairActiveChainIfNeeded c p env s).2.localCheckpoint = s.localCheckpoint) := by
  have hdropped : ∀ (ids : List Hash512) (t : Blockchain),
      (ids.foldl (dropOne c) t).manualCheckpointPinned = t.manualCheckpointPinned ∧
        (ids.foldl (dropOne c) t).localCheckpoint = t.localCheckpoint := by
    intro ids
    induction ids with
    | nil => intro t; exact ⟨rfl, rfl⟩
    | cons id rest ih => intro t; exact ih (dropOne c t id)
  have hrevoked : ∀ (t : Blockchain) (approval : SyncApprovalState),
      (revokeSyncApproval env t approval).manualCheckpointPinned = t.manualCheckpointPinned ∧
        (revokeSyncApproval env t approval).localCheckpoint = t.localCheckpoint :=
    fun t approval => ⟨rfl, rfl⟩
  rw [repairActiveChainIfNeeded]
  split
  · exact ⟨rfl, fun _ => rfl⟩
  · simp only
    split
    · exact ⟨rfl, fun _ => rfl⟩
    · split
      · exact ⟨rfl, fun _ => rfl⟩
      · obtain ⟨hpin, hcp⟩ := hdropped
          (s.heightMap.drop (s.validatedPrefixLength c p env false s.heightMap).length) s
        split
        · next t heq =>
            rcases activatePath_false heq with rfl | ⟨blocks, store, -, -, rfl⟩
            · exact ⟨hpin, fun _ => hcp⟩
            · exact ⟨hpin, fun _ => hcp⟩
        · next t heq =>
            obtain ⟨blocks, store, files, cp, -, -, rfl, hpinned, -⟩ := activatePath_true heq
            rw [hpin, hcp] at hpinned
            have honly := rebuildKnownBlockState_only p env
              { adoptPath p (List.foldl (dropOne c) s (List.drop (s.validatedPrefixLength c p env
                  false s.heightMap).length s.heightMap)) (List.take (s.validatedPrefixLength c p
                  env false s.heightMap).length s.heightMap) blocks store
                  (s.validatedPrefixLength c p env false s.heightMap).utxo
                  (s.validatedPrefixLength c p env false s.heightMap).tipBits with
                files := files, localCheckpoint := cp }
            rw [honly]
            simp only
            split
            · exact ⟨hpin, hpinned⟩
            · split
              · rw [(hrevoked _ _).1, (hrevoked _ _).2]
                exact ⟨hpin, hpinned⟩
              · exact ⟨hpin, hpinned⟩

/-- The checkpoint agrees with the chain, or the end of the constructor may
move it. -/
def Settles (repaired : Bool) (s : Blockchain) : Prop :=
  s.activeChainMatchesLocalCheckpoint = true ∨ s.manualCheckpointPinned = false ∧
    (repaired = true ∨ ∃ k hash, s.localCheckpoint = some (k, hash) ∧ s.bestHeight < k)

theorem refreshLocalCheckpoint_matches (hbest : s.bestHeight + 1 = s.heightMap.length)
    (hpin : s.manualCheckpointPinned = false) :
    (refreshLocalCheckpoint env s).activeChainMatchesLocalCheckpoint = true := by
  obtain ⟨files, cp, heq, -, hfree, -⟩ := refreshLocalCheckpoint_eq env s
  have hle := checkpointHeight_le s.bestHeight
  have hget := List.getElem?_eq_getElem (show checkpointHeight s.bestHeight < s.heightMap.length by
    omega)
  rw [heq, hfree hpin _ hget, activeChainMatches_iff]
  intro k hash hk
  cases hk
  exact hget

theorem Settles.matches {repaired : Bool} (h : s.Settles repaired)
    (hbest : s.bestHeight + 1 = s.heightMap.length) :
    (settleCheckpoint env repaired s).activeChainMatchesLocalCheckpoint = true := by
  unfold settleCheckpoint
  split
  · next hmatch => exact hmatch
  · next hmatch =>
      obtain ⟨hpin, hcase⟩ := h.resolve_left hmatch
      split
      · exact refreshLocalCheckpoint_matches hbest hpin
      · next hrepaired =>
          obtain ⟨k, hash, hcp, hlt⟩ := hcase.resolve_left hrepaired
          -- the checkpoint is above the tip and is forgotten
          have hstale : ∃ t, clearStaleLocalCheckpointIfNeeded env s = (true, t) ∧
              t.manualCheckpointPinned = false ∧ t.bestHeight = s.bestHeight ∧
              t.heightMap = s.heightMap := by
            unfold clearStaleLocalCheckpointIfNeeded
            rw [hcp]
            simp only [if_neg (show ¬ k ≤ s.bestHeight by omega)]
            split
            · exact ⟨_, rfl, rfl, rfl, rfl⟩
            · split
              · exact ⟨_, rfl, rfl, rfl, rfl⟩
              · exact ⟨_, rfl, rfl, rfl, rfl⟩
          obtain ⟨t, ht, hpin', hbest', hmap'⟩ := hstale
          rw [ht]
          exact refreshLocalCheckpoint_matches (by rw [hbest', hmap', hbest]) hpin'

/-! ## The end of the constructor -/

/-- The end of the constructor succeeds when the checkpoint can be settled. -/
theorem finish_some {repaired : Bool} (env : Env) (hd : s.Described c)
    (hbest : s.bestHeight + 1 = s.heightMap.length) (h : s.Settles repaired) :
    ∃ s', finish c env repaired s = some s' := by
  rw [finish, repairHeightFiles_described hd]
  simp only [h.matches hbest, Bool.not_true, Bool.false_eq_true, if_false]
  exact ⟨_, rfl⟩

/-- The end of the constructor keeps chain and files, and reads the UTXO set
from a snapshot of the tip. -/
theorem finish_described {repaired : Bool} (hd : s.Described c)
    (h : finish c env repaired s = some s') : Frame s s' ∧
      ∀ map, s.files.chainstate = some (s.bestHeight, s.tipHash, map) → s'.utxo = map := by
  obtain ⟨hframe, -⟩ := finish_frame h
  rw [repairHeightFiles_described hd] at hframe
  refine ⟨hframe, fun map hmap => ?_⟩
  rw [finish, repairHeightFiles_described hd] at h
  simp only at h
  split at h
  · cases h
  · cases h
    have hframe₁ : Frame s (refreshLocalCheckpoint env (settleCheckpoint env repaired s)) :=
      (frame_settleCheckpoint).trans frame_refreshLocalCheckpoint
    have hchain : (refreshLocalCheckpoint env (settleCheckpoint env repaired s)).files.chainstate
        = s.files.chainstate := by
      rw [refreshLocalCheckpoint_chainstate, settleCheckpoint_chainstate]
    generalize refreshLocalCheckpoint env (settleCheckpoint env repaired s) = t at hframe₁ hchain
    have hsnapshot : t.files.chainstate = some (t.bestHeight, t.tipHash, map) := by
      rw [hchain, hmap, show t.bestHeight = s.bestHeight by rw [hframe₁.only],
        show t.tipHash = s.tipHash by rw [hframe₁.only]]
    simp only [Bool.false_eq_true, if_false, loadUtxo, loadChainstateSnapshot, hsnapshot, ne_eq,
      not_true_eq_false, or_self]

/-! ## A stored chain -/

/-- The checkpoint that a start reads from the files. -/
def loadedCheckpoint (dir : DataDir) : Option (Nat × Hash512) :=
  dir.files.manualCheckpoint.or dir.files.localCheckpoint

/-- The constructor before its end, on a stored chain with given blocks: the
chain is whole, or it was cut behind its valid part. -/
theorem StoredChain.opens (hH : CollisionFree c H) (hw : AllWritable env)
    (h : StoredChain c H dir ids entries) (hlen : blocks.length = ids.length)
    (hload : ∀ k, k < ids.length → dir.store.load k = blocks[k]?) :
    ∃ repaired u, openDir c p env dir = finish c env repaired u ∧ u.Opened c p H ∧
      u.Described c ∧ u.manualCheckpointPinned = dir.files.manualCheckpoint.isSome ∧
      (u.manualCheckpointPinned = true → u.localCheckpoint = loadedCheckpoint dir) ∧
      (((startupPrefix c p env blocks).length = ids.length ∨
            (startupPrefix c p env blocks).length = 0) ∧
          u.heightMap = ids ∧ u.localCheckpoint = loadedCheckpoint dir ∧
          (∀ k, k < ids.length → u.store.load k = blocks[k]?) ∨
        (0 < (startupPrefix c p env blocks).length ∧
            (startupPrefix c p env blocks).length < ids.length) ∧ repaired = true ∧
          u.heightMap = ids.take (startupPrefix c p env blocks).length ∧
          (∀ k, k < (startupPrefix c p env blocks).length → u.store.load k = blocks[k]?) ∧
          u.files.chainstate
            = some (u.bestHeight, u.tipHash, (startupPrefix c p env blocks).utxo)) := by
  obtain ⟨r, hloadChain, hr⟩ := loadChain_ready (p := p) hH h
  generalize ht : rebuildKnownBlockState p env r = t at hloadChain
  have hopened : t.Opened c p H := ht ▸ hr.opened hH h
  have hdescribed : t.Described c := ht ▸ hr.described h
  have hpool : t.PoolActive := ht ▸ hr.poolActive
  have honly := rebuildKnownBlockState_only p env r
  rw [ht] at honly
  have hmap : t.heightMap = ids := by rw [honly]; exact hr.loading.heightMap
  have hfiles : t.files = dir.files := by rw [honly]; exact hr.files
  have hstore : ∀ k, t.store.load k = dir.store.load k := by
    intro k
    rw [BlockStore.load, honly]
    exact congrArg (Finmap.lookup k) hr.heightFiles
  have hframe : Frame t (loadState c env t) := frame_loadState
  obtain ⟨hpin, hcp⟩ := loadState_checkpoint c env t
  rw [hfiles] at hpin hcp
  have hmapU : (loadState c env t).heightMap = ids := by rw [hframe.heightMap, hmap]
  have hloadU : ∀ k, k < ids.length → (loadState c env t).store.load k = blocks[k]? := by
    intro k hk
    rw [hframe.store, hstore, hload k hk]
  have hopenedU := hframe.opened hopened
  have hdescribedU := hframe.described hdescribed
  have hpoolU := hframe.poolActive hpool
  rw [openDir_eq, hloadChain, Option.bind_some]
  generalize loadState c env t = u at hpin hcp hmapU hloadU hopenedU hdescribedU hpoolU
  obtain ⟨hvlen, hvutxo⟩ := hpoolU.startupPrefix p env hdescribedU hopenedU.indexOk
    (hlen.trans (congrArg List.length hmapU.symm)) (by rw [hmapU]; exact hloadU)
  obtain ⟨hpinR, hcpR⟩ := repair_checkpoint c p env u
  rcases repair_cases (p := p) hH hw hopenedU hdescribedU hpoolU rfl with
    ⟨hsame, hcase⟩ | ⟨t', u', hcut, ht', hframe', hpos, hlt, hutxo, hchain⟩
  · rw [hvlen, hmapU] at hcase
    exact ⟨false, u, by rw [hsame], hopenedU, hdescribedU, hpin, fun _ => hcp,
      Or.inl ⟨hcase, hmapU, hcp, hloadU⟩⟩
  · rw [hcut] at hpinR hcpR
    rw [hvlen, hmapU] at hlt
    rw [hvlen] at hpos ht'
    rw [hvutxo] at hutxo
    refine ⟨true, u', by rw [hcut], hframe'.opened ht'.opened, hframe'.described ht'.described,
      hpinR.trans hpin, fun hp => ?_, Or.inr ⟨⟨hpos, hlt⟩, rfl, ?_, fun k hk => ?_, ?_⟩⟩
    · exact (hcpR (hpinR.symm.trans hp)).trans hcp
    · rw [hframe'.heightMap, ht'.heightMap, hmapU]
    · rw [hframe'.store, ht'.load hk, hloadU k (by omega)]
    · rw [hchain, hutxo]

/-- A chain that is valid in full or not at all is opened as it is. -/
theorem StoredChain.opens_intact (hH : CollisionFree c H) (hw : AllWritable env)
    (h : StoredChain c H dir ids entries) (hlen : blocks.length = ids.length)
    (hload : ∀ k, k < ids.length → dir.store.load k = blocks[k]?)
    (hv : (startupPrefix c p env blocks).length = ids.length ∨
      (startupPrefix c p env blocks).length = 0)
    (hcp : ∀ k hash, loadedCheckpoint dir = some (k, hash) → ids[k]? = some hash ∨
      dir.files.manualCheckpoint = none ∧ ids.length ≤ k) :
    ∃ s, openDir c p env dir = some s ∧ s.heightMap = ids ∧ s.bestHeight + 1 = ids.length ∧
      ∀ k, k < ids.length → s.store.load k = blocks[k]? := by
  obtain ⟨repaired, u, hopen, hopened, hd, hpin, -, hcase⟩ := h.opens (p := p) hH hw hlen hload
  obtain ⟨-, hmap, hcpU, hloadU⟩ := hcase.resolve_right fun hcut => by omega
  have hbest : u.bestHeight + 1 = u.heightMap.length := hopened.coherent.best
  have hsettles : u.Settles repaired := by
    rw [Settles, activeChainMatches_iff, hmap, hcpU, hpin]
    cases hl : loadedCheckpoint dir with
    | none => exact Or.inl fun k hash hk => by cases hk
    | some cp =>
        obtain ⟨k, hash⟩ := cp
        rcases hcp k hash hl with hget | ⟨hmanual, hle⟩
        · left
          intro k' hash' hk'
          cases hk'
          exact hget
        · refine Or.inr ⟨by rw [hmanual]; rfl, Or.inr ⟨k, hash, rfl, ?_⟩⟩
          rw [hmap] at hbest
          omega
  obtain ⟨s, hs⟩ := finish_some env hd hbest hsettles
  obtain ⟨hframe, -⟩ := finish_described hd hs
  refine ⟨s, hopen.trans hs, by rw [hframe.heightMap, hmap], ?_, fun k hk => ?_⟩
  · rw [hframe.only, ← hmap]
    exact hbest
  · rw [hframe.store, hloadU k hk]

/-- A chain that is valid in part is cut there, with the map that the
validation left. -/
theorem StoredChain.opens_cut (hH : CollisionFree c H) (hw : AllWritable env)
    (h : StoredChain c H dir ids entries) (hlen : blocks.length = ids.length)
    (hload : ∀ k, k < ids.length → dir.store.load k = blocks[k]?)
    (hpos : 0 < (startupPrefix c p env blocks).length)
    (hlt : (startupPrefix c p env blocks).length < ids.length) :
    (∀ s, openDir c p env dir = some s →
      s.heightMap = ids.take (startupPrefix c p env blocks).length ∧
      s.bestHeight + 1 = (startupPrefix c p env blocks).length ∧
      (∀ k, k < (startupPrefix c p env blocks).length → s.store.load k = blocks[k]?) ∧
      s.utxo = (startupPrefix c p env blocks).utxo) ∧
    ((∀ k hash, dir.files.manualCheckpoint = some (k, hash) →
        (ids.take (startupPrefix c p env blocks).length)[k]? = some hash) →
      ∃ s, openDir c p env dir = some s) := by
  obtain ⟨repaired, u, hopen, hopened, hd, hpin, hcpU, hcase⟩ := h.opens (p := p) hH hw hlen hload
  obtain ⟨-, hrepaired, hmap, hloadU, hchain⟩ := hcase.resolve_left fun hwhole => by omega
  have hbest : u.bestHeight + 1 = u.heightMap.length := hopened.coherent.best
  constructor
  · intro s hs
    rw [hopen] at hs
    obtain ⟨hframe, hutxo⟩ := finish_described hd hs
    refine ⟨by rw [hframe.heightMap, hmap], ?_, fun k hk => ?_, hutxo _ hchain⟩
    · rw [hmap, List.length_take] at hbest
      have : s.bestHeight = u.bestHeight := by rw [hframe.only]
      omega
    · rw [hframe.store, hloadU k hk]
  · intro hcp
    have hsettles : u.Settles repaired := by
      rw [Settles, activeChainMatches_iff]
      cases hmanual : dir.files.manualCheckpoint with
      | none =>
          rw [hmanual] at hpin
          exact Or.inr ⟨hpin, Or.inl hrepaired⟩
      | some cp =>
          rw [hmanual] at hpin
          left
          intro k hash hk
          rw [hcpU hpin, loadedCheckpoint, hmanual] at hk
          cases hk
          rw [hmap]
          exact hcp _ _ hmanual
    obtain ⟨s, hs⟩ := finish_some env hd hbest hsettles
    exact ⟨s, hopen.trans hs⟩

/-- The conditions for the replay, in terms of the stored blocks. -/
theorem StoredChain.openLedger (hH : CollisionFree c H) (h : StoredChain c H dir ids entries)
    (hlen : blocks.length = ids.length)
    (hload : ∀ k, k < ids.length → dir.store.load k = blocks[k]?)
    (hfits : ∀ tip map, ids.getLast? = some tip →
      dir.files.chainstate = some (ids.length - 1, tip, map) → map = replayFrom c ∅ 0 blocks)
    (hstop : 0 < (startupPrefix c p env blocks).length →
      (startupPrefix c p env blocks).length < ids.length → (startupPrefix c p env blocks).utxo
        = replayFrom c ∅ 0 (blocks.take (startupPrefix c p env blocks).length)) :
    OpenLedger c p env dir := by
  obtain ⟨r, hloadChain, hr⟩ : ∃ r, loadChain c p env dir = some (rebuildKnownBlockState p env r) ∧
      Ready c H dir ids entries r := loadChain_ready hH h
  generalize ht : rebuildKnownBlockState p env r = t at hloadChain
  have hopened : t.Opened c p H := ht ▸ hr.opened hH h
  have hdescribed : t.Described c := ht ▸ hr.described h
  have hpool : t.PoolActive := ht ▸ hr.poolActive
  have honly := rebuildKnownBlockState_only p env r
  rw [ht] at honly
  have hmap : t.heightMap = ids := by rw [honly]; exact hr.loading.heightMap
  have hpos := List.length_pos_iff.mpr h.ids_ne_nil
  have hstore : ∀ k, k < ids.length → t.store.load k = blocks[k]? := by
    intro k hk
    rw [← hload k hk, BlockStore.load, honly]
    exact congrArg (Finmap.lookup k) hr.heightFiles
  have hbest : t.bestHeight = ids.length - 1 := by rw [honly]; exact hr.best
  constructor
  · intro t' ht' map hchain
    rw [hloadChain] at ht'
    cases ht'
    rw [hbest, show t.files = dir.files by rw [honly]; exact hr.files] at hchain
    have htip : ids.getLast? = some t.tipHash := by
      rw [← hmap]
      exact hopened.coherent.active.getLast?
    rw [hfits _ map htip hchain, replay_eq (by omega) fun k hk => hstore k (by omega)]
  · intro t' ht' blocks' blk hlen' hne hlt hload' hblk
    rw [hloadChain] at ht'
    cases ht'
    have hframe : Frame t (loadState c env t) := frame_loadState
    have hmapU : (loadState c env t).heightMap = ids := hframe.heightMap.trans hmap
    have hlength : loadedLength c p env t = (startupPrefix c p env blocks).length := by
      rw [loadedLength, ← hframe.heightMap]
      refine ((hframe.poolActive hpool).startupPrefix p env (hframe.described hdescribed)
        (hframe.opened hopened).indexOk (by rw [hmapU, hlen]) fun k hk => ?_).1
      rw [hmapU] at hk
      rw [hframe.store, hstore k hk]
    rw [hlength] at hlen'
    rw [hmap] at hlt
    have hpos' := List.length_pos_iff.mpr hne
    have hutxo := hstop (by omega) (by omega)
    rw [← hlen'] at hutxo
    -- the blocks in question are the first of the stored ones
    have htake : blocks' = blocks.take blocks'.length := by
      refine List.ext_getElem? fun k => ?_
      rw [List.getElem?_take]
      split
      · next hk => rw [← hload' k hk, getBlock, hstore k (by omega)]
      · next hk => exact List.getElem?_eq_none (by omega)
    rw [getBlock, hstore _ hlt] at hblk
    obtain ⟨mid, hacc, hrefused⟩ := validateBlocks_stop (n := blocks'.length)
      (hlen'.symm.trans (by rw [List.length_nil, Nat.zero_add])) hblk
    have hmid : replayFrom c ∅ 0 (blocks.take blocks'.length) = mid := hacc.replay
    rw [htake, hmid]
    rw [hmid, startupPrefix, hrefused, List.nil_append] at hutxo
    exact hutxo

/-! ## Directories that are not in order -/

theorem noteActive_only : ∀ (l : List Hash512) (h : Nat) {s t : Blockchain},
    noteActive c s h l = some t → t = { s with
      bestHeight := t.bestHeight
      tipHash := t.tipHash
      tipBits := t.tipBits
      linkIndex := t.linkIndex
      heightIndex := t.heightIndex
      blockHeight := t.blockHeight }
  | [], _, s, t, h => by
      cases h
      rfl
  | id :: rest, k, s, t, h => by
      rw [noteActive] at h
      split at h
      · cases h
      · rw [noteActive_only rest (k + 1) h]

theorem activeWork_only : ∀ (l : List Hash512) (h : Nat) {s t : Blockchain},
    activeWork p s h l = some t → t = { s with chainWork := t.chainWork }
  | [], _, s, t, h => by
      cases h
      rfl
  | id :: rest, k, s, t, h => by
      rw [activeWork] at h
      split at h
      · cases h
      · simp only at h
        generalize (if k = 0 then some 0 else _) = before at h
        cases before with
        | none => cases h
        | some w => rw [activeWork_only rest (k + 1) h]

theorem ensureActive_only : ∀ (l : List Hash512) (h : Nat) {s t : Blockchain},
    ensureActive c p s h l = some t → t = { s with
      linkIndex := t.linkIndex
      heightIndex := t.heightIndex
      chainWork := t.chainWork
      blockHeight := t.blockHeight }
  | [], _, s, t, h => by
      cases h
      rfl
  | id :: rest, k, s, t, h => by
      rw [ensureActive] at h
      split at h
      · cases h
      · simp only at h
        generalize (if k = 0 then some 0 else _) = before at h
        cases before with
        | none => cases h
        | some w => rw [ensureActive_only rest (k + 1) h]

theorem loadIndex_stored (p : ChainParams) (hindex : dir.files.index = some ids) :
    loadIndex (initial p dir) = { initial p dir with
      heightMap := ids
      index := FinMap.insertAll ∅ (ids.map fun id => (id, ({} : BlockHeader))) } := by
  have hfiles : (initial p dir).files.index = some ids := hindex
  rw [loadIndex, hfiles]
  rfl

/-- Whatever else is stored, the chain that is loaded is the stored index,
and the height files are as they were. -/
theorem loadChain_index {t : Blockchain} (hindex : dir.files.index = some ids) (hne : ids ≠ [])
    (h : loadChain c p env dir = some t) : t.heightMap = ids ∧ t.bestHeight + 1 = ids.length ∧
      t.store.heightFiles = dir.store.heightFiles := by
  rw [loadChain] at h
  obtain ⟨s₁, hload, h⟩ := Option.bind_eq_some_iff.mp h
  obtain ⟨s₂, hs₂, h⟩ := Option.bind_eq_some_iff.mp h
  obtain ⟨s₃, hensure, rfl⟩ := Option.map_eq_some_iff.mp h
  -- the index has the active ids, whatever the headers add
  have hplaced : FinMap.insertAll ∅ (ids.map fun id => (id, ({} : BlockHeader))) ≠ ∅ :=
    FinMap.insertAll_ne_empty (Or.inr (by simpa using hne))
  have hloaded : s₁.heightMap = ids ∧ s₁.index ≠ ∅ ∧ s₁.store = dir.store := by
    rw [loadIndex_stored p hindex, loadHeaders] at hload
    split at hload
    · cases hload
      exact ⟨rfl, hplaced, rfl⟩
    · obtain ⟨s₀, hnote, hwork⟩ := Option.bind_eq_some_iff.mp hload
      rw [activeWork_only _ _ hwork, noteActive_only _ _ hnote]
      exact ⟨rfl, FinMap.insertAll_ne_empty (Or.inl hplaced), rfl⟩
  rw [if_neg (by simp [hloaded.1, hloaded.2.1, hne])] at hs₂
  cases hs₂
  rw [ensureGenesis, if_pos ⟨by rw [hloaded.1]; exact hne, hloaded.2.1⟩] at hensure
  obtain ⟨s₄, hactive, rfl⟩ := Option.map_eq_some_iff.mp hensure
  have honly := ensureActive_only _ _ hactive
  obtain ⟨hcached, hfiles⟩ := @cacheActive_only c env (List.range (s₁.heightMap.length - 1 + 1)) s₄
  have hpos := List.length_pos_iff.mpr hne
  rw [rebuildKnownBlockState_only]
  simp only
  refine ⟨?_, ?_, ?_⟩
  · rw [hcached, honly]
    exact hloaded.1
  · rw [hcached, honly]
    show s₁.heightMap.length - 1 + 1 = ids.length
    rw [hloaded.1]
    omega
  · rw [hfiles, honly, ← hloaded.2.2]

/-- A repair that does not cut the chain leaves the height files. -/
theorem repair_whole (c : Crypto) (p : ChainParams) (s : Blockchain) (hw : AllWritable env)
    (h : (repairActiveChainIfNeeded c p env s).2.heightMap = s.heightMap) :
    (repairActiveChainIfNeeded c p env s).2.store.heightFiles = s.store.heightFiles ∧
      (repairActiveChainIfNeeded c p env s).2.bestHeight = s.bestHeight := by
  have hdropped : ∀ (ids : List Hash512) (t : Blockchain),
      (ids.foldl (dropOne c) t).store.heightFiles = t.store.heightFiles ∧
        (ids.foldl (dropOne c) t).bestHeight = t.bestHeight := by
    intro ids
    induction ids with
    | nil => intro t; exact ⟨rfl, rfl⟩
    | cons id rest ih => intro t; exact ih (dropOne c t id)
  obtain ⟨blocks, mid, -, -, hlen, hle, -⟩ := validatedPrefix_blocks c p env false s s.heightMap
  rw [repairActiveChainIfNeeded] at h ⊢
  split at h
  · next hnil =>
      rw [if_pos hnil]
      exact ⟨rfl, rfl⟩
  · next hnil =>
      rw [if_neg hnil]
      simp only at h ⊢
      split at h
      · next hfull =>
          rw [if_pos hfull]
          exact ⟨rfl, rfl⟩
      · next hfull =>
          rw [if_neg hfull]
          split at h
          · next hzero =>
              rw [if_pos hzero]
              exact ⟨rfl, rfl⟩
          · next hzero =>
              rw [if_neg hzero]
              split at h
              · next t heq =>
                  rcases activatePath_false heq with rfl | ⟨blocks', store, -, hwrite, -⟩
                  · exact hdropped _ s
                  · obtain ⟨st, hst⟩ := writePath_writable hw _ _ 0
                    rw [hst] at hwrite
                    cases hwrite
              · next t heq =>
                  -- an activated prefix is shorter than the chain
                  exfalso
                  obtain ⟨blocks', store, files, cp, -, -, rfl, -⟩ := activatePath_true heq
                  have honly : ∀ u : Blockchain,
                      (rebuildKnownBlockState p env u).heightMap = u.heightMap :=
                    fun u => by rw [rebuildKnownBlockState_only]
                  have hshort : s.heightMap.take (s.validatedPrefixLength c p env false
                      s.heightMap).length = s.heightMap := by
                    split at h
                    · exact (honly _).symm.trans h
                    · split at h
                      · rw [(frame_revokeSyncApproval).heightMap] at h
                        exact (honly _).symm.trans h
                      · exact (honly _).symm.trans h
                  have := congrArg List.length hshort
                  rw [List.length_take] at this
                  omega

theorem restoreHeightFiles_keeps (env : Env) {k : Nat} {b : Block} : ∀ (ids : List Hash512) (h : Nat)
    {st : BlockStore}, st.load k = some b → (restoreHeightFiles env st h ids).1.load k = some b
  | [], _, _, hb => hb
  | id :: rest, h, st, hb => by
      rw [restoreHeightFiles]
      split
      · exact restoreHeightFiles_keeps env rest (h + 1) hb
      · next hmissing =>
          split
          · exact restoreHeightFiles_keeps env rest (h + 1) hb
          · split
            · next heq =>
                rw [BlockStore.store] at heq
                split at heq
                · cases heq
                · cases heq
                  exact restoreHeightFiles_keeps env rest (h + 1) hb
            · next heq =>
                rw [BlockStore.store] at heq
                split at heq
                · cases heq
                  refine restoreHeightFiles_keeps env rest (h + 1) ?_
                  refine (Finmap.lookup_insert_of_ne _ ?_).trans hb
                  rintro rfl
                  exact hmissing (by rw [BlockStore.fileExists, hb]; rfl)
                · cases heq

/-- Opening keeps the stored index or cuts it. A chain that is kept has the
height files it had. -/
theorem openDir_kept (hw : AllWritable env) (hindex : dir.files.index = some ids) (hne : ids ≠ [])
    (h : openDir c p env dir = some s) : (∃ n, s.heightMap = ids.take n) ∧
      (s.heightMap = ids → s.bestHeight + 1 = ids.length ∧
        ∀ {k b}, k < ids.length → dir.store.load k = some b → s.store.load k = some b) := by
  rw [openDir_eq] at h
  obtain ⟨t, hload, hfinish⟩ := Option.bind_eq_some_iff.mp h
  obtain ⟨hmap, hbest, hfiles⟩ := loadChain_index hindex hne hload
  have hframe : Frame t (loadState c env t) := frame_loadState
  have hwhole := repair_whole c p (loadState c env t) hw
  have hcut : (repairActiveChainIfNeeded c p env (loadState c env t)).2.heightMap = _ ∨ _ :=
    repair_heightMap rfl
  obtain ⟨hframe', -⟩ := finish_frame hfinish
  generalize repairActiveChainIfNeeded c p env (loadState c env t) = res at hwhole hcut hframe'
  obtain ⟨repaired, u⟩ := res
  simp only at hwhole hcut hframe'
  have hunder : (repairHeightFilesIfNeeded env u).2.heightMap = u.heightMap ∧
      (repairHeightFilesIfNeeded env u).2.bestHeight = u.bestHeight := by
    unfold repairHeightFilesIfNeeded
    generalize restoreHeightFiles env _ 0 _ = res
    obtain ⟨store, n⟩ := res
    simp only
    split <;> exact ⟨rfl, rfl⟩
  have hmapS : s.heightMap = u.heightMap := hframe'.heightMap.trans hunder.1
  have hbestS : s.bestHeight = u.bestHeight := by
    rw [hframe'.only]
    exact hunder.2
  rw [hframe.heightMap, hmap] at hwhole hcut
  refine ⟨?_, fun hkept => ?_⟩
  · rcases hcut with hsame | ⟨-, hcut⟩
    · exact ⟨ids.length, by rw [hmapS, hsame, List.take_length]⟩
    · exact ⟨_, hmapS.trans hcut⟩
  · obtain ⟨hstore, hbestU⟩ := hwhole (hmapS.symm.trans hkept)
    refine ⟨?_, fun {k b} hk hb => ?_⟩
    · rw [hbestS, hbestU, hframe.only]
      exact hbest
    have hold : u.store.load k = some b := by
      rw [BlockStore.load, hstore, hframe.store, hfiles]
      exact hb
    have hrestored := restoreHeightFiles_keeps env u.heightMap 0 hold
    rw [hframe'.store]
    unfold repairHeightFilesIfNeeded
    generalize restoreHeightFiles env u.store 0 u.heightMap = res at hrestored
    obtain ⟨store, n⟩ := res
    simp only at hrestored ⊢
    split
    · exact hrestored
    · rw [BlockStore.prune_load_le store]
      · exact hrestored
      · rw [hbestU, hframe.only]
        show k ≤ t.bestHeight
        omega

/-! ## An active id without a header -/

theorem noteActive_link : ∀ (l : List Hash512) (h : Nat) {s t : Blockchain},
    (∀ id hdr, s.index.lookup id = some hdr → hdr.hash c ≠ 0) → s.linkIndex.lookup 0 = none →
    noteActive c s h l = some t → t.linkIndex.lookup 0 = none
  | [], _, s, t, _, hlink, h => by
      cases h
      exact hlink
  | id :: rest, k, s, t, hne, hlink, h => by
      rw [noteActive] at h
      split at h
      · cases h
      · next hdr hhdr =>
          refine noteActive_link rest (k + 1) ?_ ?_ h
          · exact hne
          · rw [FinMap.lookup_insert_ite, if_neg (Ne.symm (hne id hdr hhdr))]
            exact hlink

/-- A header without a parent behind genesis has no work. -/
theorem activeWork_orphan : ∀ (rest : List Hash512) (h i : Nat) {s : Blockchain} {id : Hash512}
    {hdr : BlockHeader}, s.linkIndex.lookup 0 = none → rest[i]? = some id → 0 < h + i →
      s.index.lookup id = some hdr → hdr.prevBlockHash = 0 → activeWork p s h rest = none
  | [], _, _, _, _, _, _, hi, _, _, _ => by cases hi
  | j :: rest, h, i, s, id, hdr, hlink, hi, hpos, hid, hprev => by
      rw [activeWork]
      cases i with
      | zero =>
          cases hi
          rw [hid]
          simp only [if_neg (show h ≠ 0 by omega)]
          rw [hprev, hlink]
          rfl
      | succ i =>
          rw [List.getElem?_cons_succ] at hi
          split
          · rfl
          · simp only
            split
            · rfl
            · exact activeWork_orphan rest (h + 1) i hlink hi (by omega) hid hprev

theorem lookup_placeholders {id : Hash512} : ∀ {l : List Hash512} {m : FinMap Hash512 BlockHeader},
    id ∈ l → (FinMap.insertAll m (l.map fun id => (id, ({} : BlockHeader)))).lookup id = some {}
  | j :: rest, m, hmem => by
      rw [List.map_cons, FinMap.insertAll_cons]
      by_cases hrest : id ∈ rest
      · exact lookup_placeholders hrest
      · obtain rfl : id = j := (List.mem_cons.mp hmem).resolve_right hrest
        refine (FinMap.lookup_insertAll_of_notMem ?_).trans (Finmap.lookup_insert m)
        rw [List.map_map]
        intro h
        obtain ⟨k, hk, rfl⟩ := List.mem_map.mp h
        exact hrest hk

theorem placeholders_lookup {id : Hash512} {hdr : BlockHeader} {l : List Hash512}
    (h : (FinMap.insertAll ∅ (l.map fun id => (id, ({} : BlockHeader)))).lookup id = some hdr) :
    hdr = {} := by
  rcases FinMap.mem_of_lookup_insertAll h with hmem | hnone
  · obtain ⟨k, -, heq⟩ := List.mem_map.mp hmem
    exact (congrArg Prod.snd heq).symm
  · rw [Finmap.lookup_empty] at hnone
    cases hnone

/-- The placeholder of an active id without a stored header ends the
constructor. -/
theorem loadChain_placeholder (hindex : dir.files.index = some ids)
    (hheaders : dir.files.headers = some entries) (hentry : ∀ e ∈ entries, e.2.hash c ≠ 0)
    (hplace : BlockHeader.hash c {} ≠ 0) {i : Nat} {id : Hash512} (hi : ids[i]? = some id)
    (hpos : 0 < i) (hnot : id ∉ entries.map Prod.fst) : loadChain c p env dir = none := by
  have hload : loadHeaders c p (loadIndex (initial p dir)) = none := by
    have hheaders' : (initial p dir).files.headers = some entries := hheaders
    rw [loadIndex_stored p hindex, loadHeaders]
    simp only [hheaders']
    obtain ⟨s₀, hs₀, hmap, hindexS, hlinkS⟩ : ∃ s₀ : Blockchain, s₀ = { initial p dir with
        heightMap := ids
        index := FinMap.insertAll (FinMap.insertAll ∅ (ids.map fun id => (id, ({} : BlockHeader))))
          entries
        linkIndex := FinMap.insertAll (initial p dir).linkIndex
          (entries.map fun e => (e.2.hash c, e.1)) } ∧ s₀.heightMap = ids ∧
        s₀.index = FinMap.insertAll (FinMap.insertAll ∅ (ids.map fun id =>
          (id, ({} : BlockHeader)))) entries ∧
        s₀.linkIndex = FinMap.insertAll ∅ (entries.map fun e => (e.2.hash c, e.1)) :=
      ⟨_, rfl, rfl, rfl, rfl⟩
    rw [← hs₀]
    have hknown : ∀ j hdr, s₀.index.lookup j = some hdr → hdr.hash c ≠ 0 := by
      intro j hdr hj
      rw [hindexS] at hj
      rcases FinMap.mem_of_lookup_insertAll hj with hmem | hj
      · exact hentry (j, hdr) hmem
      · rw [placeholders_lookup hj]
        exact hplace
    have hlink : s₀.linkIndex.lookup 0 = none := by
      rw [hlinkS]
      refine (FinMap.lookup_insertAll_of_notMem ?_).trans (Finmap.lookup_empty _)
      intro hmem
      rw [List.map_map] at hmem
      obtain ⟨e, he, hzero⟩ := List.mem_map.mp hmem
      exact hentry e he hzero
    have hplaced : s₀.index.lookup id = some {} := by
      rw [hindexS]
      exact (FinMap.lookup_insertAll_of_notMem hnot).trans
        (lookup_placeholders (List.mem_of_getElem? hi))
    cases hnote : noteActive c s₀ 0 ids with
    | none => rfl
    | some s₁ =>
        have honly := noteActive_only _ _ hnote
        have hindex₁ : s₁.index = s₀.index := by rw [honly]
        have hmap₁ : s₁.heightMap = ids := by rw [honly, ← hmap]
        rw [← hmap₁] at hi
        rw [← hindex₁] at hplaced
        exact activeWork_orphan _ 0 i (noteActive_link _ _ hknown hlink hnote) hi (by omega)
          hplaced rfl
  rw [loadChain, hload, Option.bind_none]

end Blockchain

end Cryptex
