import Cryptex.RegtestRun
import Cryptex.Timestamps

/-!
# The UTXO set as a replay

A path that is accepted leaves the map that its blocks, applied one after
the other to the empty map, lead to. So an activation keeps the UTXO set
equal to the replay of the height files, unless it breaks off after it has
overwritten files of the active chain; and an opening does, unless it cuts
the chain at a block that was refused with its transactions half applied.
-/

namespace Cryptex

open Blockchain

variable {c : Crypto} {p : ChainParams}

/-! ## Accepted blocks -/

/-- The transactions of a block that passes were all applied. -/
theorem applyTransactions_map {height : UInt32} : ∀ {txs : List Transaction} {i : Nat}
    {map map' : UTXOSet} {fees fees' : Int64},
    applyTransactions c height i txs map fees = (map', .ok fees') →
    txs.foldl (fun map tx => (UTXOSet.applyTransaction c map tx height).map) map = map'
  | [], _, _, _, _, _, h => by
      cases h
      rfl
  | tx :: rest, i, map, map', fees, fees', h => by
      rw [applyTransactions] at h
      split at h
      · rw [List.foldl_cons]
        exact applyTransactions_map h
      · cases h

theorem validateBlock_replay {now : Nat} {skip : Bool} {hist : List BlockHeader}
    {map map' : UTXOSet} {blk : Block}
    (h : validateBlock c p now skip hist map blk = (map', none)) :
    replayBlock c map hist.length blk = map' := by
  obtain ⟨-, totalFees, happ, -⟩ := validateBlock_none h
  exact applyTransactions_map happ

/-- An accepted path leaves the replay of its blocks. -/
theorem Accepts.replay {now : Nat} {skip : Bool} {hist : List BlockHeader} {map map' : UTXOSet}
    {blocks : List Block} (h : Accepts c p now skip hist map blocks map') :
    replayFrom c map hist.length blocks = map' := by
  induction h with
  | nil => rfl
  | @cons hist map blk map₁ rest map' hv _ ih =>
      rw [replayFrom, validateBlock_replay hv, ← ih, List.length_append, List.length_singleton]

namespace Blockchain

variable {env : Env} {skip : Bool} {H : Set BlockHeader} {s s' : Blockchain} {blk : Block}

/-! ## The replay of a state -/

/-- The block of a height, if there is one, applied to a map. -/
def replayHeight (c : Crypto) (st : BlockStore) (map : UTXOSet) (h : Nat) : UTXOSet :=
  match st.load h with
  | none => map
  | some blk => replayBlock c map h blk

/-- The blocks of the active heights, applied in order to the empty map. -/
def replay (c : Crypto) (s : Blockchain) : UTXOSet :=
  (List.range (s.bestHeight + 1)).foldl (replayHeight c s.store) ∅

/-- The replay depends on the height files up to the tip only. -/
theorem replay_congr (hbest : s'.bestHeight = s.bestHeight)
    (hload : ∀ k, k ≤ s.bestHeight → s'.store.load k = s.store.load k) :
    s'.replay c = s.replay c := by
  rw [replay, replay, hbest]
  refine List.foldl_ext _ _ _ fun map k hk => ?_
  have := List.mem_range.mp hk
  rw [replayHeight, replayHeight, hload k (by omega)]

theorem replayFrom_append (c : Crypto) : ∀ (xs ys : List Block) (map : UTXOSet) (h : Nat),
    replayFrom c map h (xs ++ ys) = replayFrom c (replayFrom c map h xs) (h + xs.length) ys
  | [], _, _, _ => rfl
  | x :: xs, ys, map, h => by
      rw [List.cons_append, replayFrom, replayFrom, replayFrom_append c xs ys, List.length_cons,
        show h + 1 + xs.length = h + (xs.length + 1) by omega]

/-- Height files that hold given blocks replay these blocks. -/
theorem replayHeights_eq {st : BlockStore} : ∀ (n : Nat) {blocks : List Block},
    n ≤ blocks.length → (∀ k, k < n → st.load k = blocks[k]?) →
    (List.range n).foldl (replayHeight c st) ∅ = replayFrom c ∅ 0 (blocks.take n)
  | 0, _, _, _ => rfl
  | n + 1, blocks, hn, hload => by
      have hb := List.getElem?_eq_getElem (show n < blocks.length by omega)
      rw [List.range_succ, List.foldl_append, replayHeights_eq n (by omega) fun k hk =>
        hload k (by omega), List.take_add_one, replayFrom_append, hb]
      simp only [List.foldl_cons, List.foldl_nil, Option.toList_some, replayFrom, List.length_take]
      rw [replayHeight, hload n (by omega), hb, Nat.zero_add, Nat.min_eq_left (by omega)]

theorem replay_eq {blocks : List Block} (hlen : s.bestHeight + 1 = blocks.length)
    (hload : ∀ k, k < blocks.length → s.store.load k = blocks[k]?) :
    s.replay c = replayFrom c ∅ 0 blocks := by
  rw [replay, hlen, replayHeights_eq blocks.length (Nat.le_refl _) hload, List.take_length]

/-- The UTXO set is the replay of the active chain. -/
def Ledger (c : Crypto) (s : Blockchain) : Prop := s.utxo = s.replay c

theorem Ledger.congr (h : s.Ledger c) (hutxo : s'.utxo = s.utxo)
    (hbest : s'.bestHeight = s.bestHeight)
    (hload : ∀ k, k ≤ s.bestHeight → s'.store.load k = s.store.load k) : s'.Ledger c := by
  rw [Ledger, hutxo, replay_congr hbest hload]
  exact h

/-! ## Passes -/

/-- An activation that breaks off has overwritten height files of the active
chain with the blocks they held already. -/
def KeepsFiles (c : Crypto) (p : ChainParams) (env : Env) (skip : Bool) (s : Blockchain)
    (blk : Block) : Prop :=
  ∀ path, s.Fails c p env skip blk path → ∀ k, k ≤ s.bestHeight → Reaches env path k →
    s.getBlock k = path[k]?.bind fun id => (s.cacheBlock c env blk).getBlockByHash id.toNat

theorem Ledger.cacheBlock (h : s.Ledger c) : (s.cacheBlock c env blk).Ledger c :=
  h.congr rfl rfl fun k _ => by
    rw [BlockStore.load, show (s.cacheBlock c env blk).store.heightFiles = s.store.heightFiles from
      BlockStore.storeByHash_heightFiles _ _ _ _]
    rfl

theorem Ledger.switched {path : List Hash512} (hnd : path.Nodup) (hne : path ≠ [])
    (hvalid : s.PathValid c p env skip path) {bits : UInt32}
    (hact : activatePath p env s path (s.validatedPrefixLength c p env skip path).utxo bits
      = (true, s')) : s'.Ledger c := by
  obtain ⟨blocks, hblocks, hacc, -⟩ := hvalid.accepts
  have hlen := hblocks.length_eq
  have hdone := activatePath_activated hnd hblocks hact
  have hpos : 0 < path.length := List.length_pos_iff.mpr hne
  have hutxo : s'.utxo = (s.validatedPrefixLength c p env skip path).utxo := by rw [hdone.only]; rfl
  have hbest : s'.bestHeight = path.length - 1 := by rw [hdone.only]; rfl
  rw [Ledger, hutxo, ← hacc.replay]
  refine (replay_eq (by omega) fun k hk => ?_).symm
  exact hdone.load (by omega)

theorem Ledger.failed (h : s.Ledger c) {path : List Hash512} {blocks : List Block}
    (hblocks : s.BlocksOf path blocks) {utxo : UTXOSet} {bits : UInt32}
    (hact : activatePath p env s path utxo bits = (false, s'))
    (hkept : ∀ k, k ≤ s.bestHeight → Reaches env path k → s.store.load k = blocks[k]?) :
    s'.Ledger c := by
  rcases activatePath_false hact with rfl | ⟨blocks', store, hm, hwrite, rfl⟩
  · exact h
  · rw [hblocks.mapM_eq] at hm
    cases hm
    have hstore : (writePath env.canWrite s.store 0 (path.zip blocks)).1 = store := by rw [hwrite]
    refine h.congr rfl rfl fun k hk => ?_
    rcases writePath_height_cases (path.zip blocks) s.store 0 k with
      ⟨j, e, hj, he, hto, hload⟩ | ⟨-, hload⟩
    · obtain rfl : k = j := by omega
      obtain ⟨hid, hb⟩ := List.getElem?_zip_eq_some.mp he
      have hlt := (List.getElem?_eq_some_iff.mp hid).1
      rw [hkept k hk ((writesTo_iff hblocks.length_eq hlt).mp hto), hb, ← hload, hstore]
    · rw [← hload, hstore]

theorem Ledger.acceptOne (hH : CollisionFree c H) (hs : s.Coherent c p H) (hb : blk.header ∈ H)
    (hkeeps : s.KeepsFiles c p env skip blk) (h : s.Ledger c) :
    (s.acceptOne c p env skip blk).2.Ledger c := by
  have hcoh : (s.cacheBlock c env blk).Coherent c p H := hs.cacheBlock hH hb
  have hcached : (s.cacheBlock c env blk).Ledger c := h.cacheBlock
  have hout : Outcome c p env skip s blk (s.acceptOne c p env skip blk).1
      (s.acceptOne c p env skip blk).2 := acceptOne_outcome hH hs hb
  generalize s.acceptOne c p env skip blk = res at hout
  obtain ⟨v, s'⟩ := res
  simp only at hout ⊢
  cases hout with
  | rejected _ _ => exact h
  | processed _ _ => exact hcached
  | orphan _ _ _ _ => exact hcached
  | side _ _ _ _ => exact hcached
  | refused _ _ _ _ _ _ => exact hcached
  | invalid _ hcand _ =>
      have hleft := hcoh.refusal env hH hcand
      refine hcached.congr ?_ ?_ fun k _ => ?_
      · rw [hleft.only]
      · rw [hleft.only]
      · rw [BlockStore.load, hleft.heightFiles]
        rfl
  | @failed path _ hcheck hcand hvalid hlt hallowed hact =>
      obtain ⟨blocks, hblocks, -, -⟩ := hvalid.accepts
      have hfails : s.Fails c p env skip blk path :=
        ⟨hcheck, hcand, hvalid, hlt, hallowed, (failed_held hcand hvalid hact).1⟩
      refine hcached.failed hblocks hact fun k hk hreach => ?_
      have hsame := hkeeps path hfails k hk hreach
      have hid := List.getElem?_eq_getElem hreach.lt
      have hfile := List.getElem?_eq_getElem (show k < blocks.length by
        have := hblocks.length_eq
        have := hreach.lt
        omega)
      rw [hid, Option.bind_some, hblocks.getElem hid hfile] at hsame
      have hload : (s.cacheBlock c env blk).store.load k = s.store.load k := by
        rw [BlockStore.load, show (s.cacheBlock c env blk).store.heightFiles = s.store.heightFiles
          from BlockStore.storeByHash_heightFiles _ _ _ _]
        rfl
      rw [hload, hfile]
      exact hsame
  | switched _ hcand hvalid _ _ hact =>
      exact Ledger.switched (Forest.PathTo.nodup hcand.linked)
        (Forest.PathTo.ne_nil hcand.linked) hvalid hact

/-! ## The snapshot -/

/-- A snapshot that names the tip holds the replay of the height files. -/
def SnapshotFits (c : Crypto) (s : Blockchain) : Prop :=
  ∀ map, s.files.chainstate = some (s.bestHeight, s.tipHash, map) → map = s.replay c

/-- The height files up to the tip, read until one is missing, are all there
is to replay. -/
def Replayable (c : Crypto) (s : Blockchain) : Prop :=
  replayFrom c ∅ 0 (blockFilesFrom s.store (s.bestHeight + 1) 0) = s.replay c

theorem blockFilesFrom_complete (st : BlockStore) : ∀ (n h : Nat),
    (∀ k, k < n → ∃ b, st.load (h + k) = some b) →
    (blockFilesFrom st n h).length = n ∧
      ∀ k, k < n → st.load (h + k) = (blockFilesFrom st n h)[k]?
  | 0, _, _ => ⟨rfl, fun k hk => absurd hk (Nat.not_lt_zero k)⟩
  | n + 1, h, hfiles => by
      obtain ⟨b, hb⟩ := hfiles 0 (by omega)
      rw [Nat.add_zero] at hb
      obtain ⟨hlen, hload⟩ := blockFilesFrom_complete st n (h + 1) fun k hk => by
        rw [show h + 1 + k = h + (k + 1) by omega]
        exact hfiles (k + 1) (by omega)
      have hcons : blockFilesFrom st (n + 1) h = b :: blockFilesFrom st n (h + 1) := by
        rw [blockFilesFrom, hb]
      rw [hcons]
      refine ⟨by rw [List.length_cons, hlen], fun k hk => ?_⟩
      cases k with
      | zero => exact hb
      | succ k =>
          rw [List.getElem?_cons_succ, ← hload k (by omega)]
          congr 1
          omega

theorem replayable_of_complete (h : ∀ k, k ≤ s.bestHeight → ∃ b, s.store.load k = some b) :
    s.Replayable c := by
  obtain ⟨hlen, hload⟩ := blockFilesFrom_complete s.store (s.bestHeight + 1) 0
    fun k hk => by rw [Nat.zero_add]; exact h k (by omega)
  refine (replay_eq hlen.symm fun k hk => ?_).symm
  rw [← hload k (by omega), Nat.zero_add]

theorem Described.replayable (hd : s.Described c) (hbest : s.bestHeight + 1 = s.heightMap.length) :
    s.Replayable c := by
  refine replayable_of_complete fun k hk => ?_
  obtain ⟨b, hb, -⟩ := hd.complete (List.getElem?_eq_getElem (show k < s.heightMap.length by omega))
  exact ⟨b, hb⟩

theorem SnapshotFits.congr (h : s.SnapshotFits c)
    (hchain : s'.files.chainstate = s.files.chainstate) (hbest : s'.bestHeight = s.bestHeight)
    (htip : s'.tipHash = s.tipHash) (hload : ∀ k, k ≤ s.bestHeight → s'.store.load k = s.store.load k) :
    s'.SnapshotFits c := by
  intro map hmap
  rw [hchain, hbest, htip] at hmap
  rw [replay_congr hbest hload]
  exact h map hmap

theorem Ledger.persistChainstate (h : s.Ledger c) (hfits : s.SnapshotFits c) :
    (persistChainstate env s).Ledger c ∧ (persistChainstate env s).SnapshotFits c := by
  unfold Blockchain.persistChainstate
  split
  · refine ⟨h, fun map hmap => ?_⟩
    cases hmap
    exact h
  · exact ⟨h, hfits⟩

/-- Whether the set is read from the snapshot or replayed, it is the replay. -/
theorem loadUtxo_ledger (env : Env) (hfits : s.SnapshotFits c) (hfiles : s.Replayable c) :
    (loadUtxo c env s).Ledger c ∧ (loadUtxo c env s).SnapshotFits c := by
  have hrebuilt : ∀ utxo : UTXOSet,
      (rebuildUtxoFromActiveChain c { s with utxo := utxo }).Ledger c ∧
        (rebuildUtxoFromActiveChain c { s with utxo := utxo }).SnapshotFits c :=
    fun utxo => ⟨hfiles, hfits.congr rfl rfl rfl fun _ _ => rfl⟩
  rw [loadUtxo, loadChainstateSnapshot]
  cases hchain : s.files.chainstate with
  | none =>
      obtain ⟨hledger, hsnapshot⟩ := hrebuilt s.utxo
      exact hledger.persistChainstate hsnapshot
  | some snapshot =>
      obtain ⟨height, tip, map⟩ := snapshot
      simp only
      by_cases hother : height ≠ s.bestHeight ∨ tip ≠ s.tipHash
      · rw [if_pos hother]
        obtain ⟨hledger, hsnapshot⟩ := hrebuilt ∅
        exact hledger.persistChainstate hsnapshot
      · rw [if_neg hother]
        obtain ⟨hheight, htip⟩ : height = s.bestHeight ∧ tip = s.tipHash := by tauto
        refine ⟨?_, hfits.congr rfl rfl rfl fun _ _ => rfl⟩
        exact hfits map (by rw [hchain, hheight, htip])

/-! ## Openings -/

theorem persistLocalCheckpoint_chainstate (env : Env) (s : Blockchain) :
    (persistLocalCheckpoint env s).files.chainstate = s.files.chainstate := by
  unfold persistLocalCheckpoint
  split <;> rfl

theorem refreshLocalCheckpoint_chainstate (env : Env) (s : Blockchain) :
    (refreshLocalCheckpoint env s).files.chainstate = s.files.chainstate := by
  unfold refreshLocalCheckpoint
  split
  · rfl
  · simp only
    split
    · rfl
    · split
      · rfl
      · exact persistLocalCheckpoint_chainstate env _

theorem revokeSyncApproval_chainstate (env : Env) (s : Blockchain) (approval : SyncApprovalState) :
    (revokeSyncApproval env s approval).files.chainstate = s.files.chainstate := by
  unfold revokeSyncApproval
  simp only
  split <;> rfl

theorem clearStaleLocalCheckpoint_chainstate (env : Env) (s : Blockchain) :
    (clearStaleLocalCheckpointIfNeeded env s).2.files.chainstate = s.files.chainstate := by
  unfold clearStaleLocalCheckpointIfNeeded
  split
  · rfl
  · split
    · rfl
    · simp only
      split
      · split <;> rfl
      · split
        · rw [revokeSyncApproval_chainstate]
          split <;> rfl
        · split <;> rfl

theorem settleCheckpoint_chainstate (env : Env) (repaired : Bool) (s : Blockchain) :
    (settleCheckpoint env repaired s).files.chainstate = s.files.chainstate := by
  have hclear := clearStaleLocalCheckpoint_chainstate env s
  unfold settleCheckpoint
  split
  · rfl
  · split
    · exact refreshLocalCheckpoint_chainstate env s
    · split
      · next heq =>
          rw [heq] at hclear
          rw [refreshLocalCheckpoint_chainstate]
          exact hclear
      · next heq =>
          rw [heq] at hclear
          exact hclear

theorem loadState_ledger (env : Env) (hfits : s.SnapshotFits c) (hfiles : s.Replayable c) :
    (loadState c env s).Ledger c ∧ (loadState c env s).SnapshotFits c := by
  refine loadUtxo_ledger env ?_ ?_ <;>
    · unfold loadSyncApproval loadManualCheckpoint loadLocalCheckpoint
      split
      · first | exact hfiles | exact hfits.congr rfl rfl rfl fun _ _ => rfl
      · first | exact hfiles | exact hfits.congr rfl rfl rfl fun _ _ => rfl

theorem finish_ledger {repaired : Bool} (h : finish c env repaired s = some s')
    (hfits : (repairHeightFilesIfNeeded env s).2.SnapshotFits c)
    (hfiles : (repairHeightFilesIfNeeded env s).2.Replayable c) :
    s'.Ledger c ∧ s'.SnapshotFits c := by
  rw [finish] at h
  generalize repairHeightFilesIfNeeded env s = res at h hfits hfiles
  obtain ⟨restored, s₁⟩ := res
  simp only at h hfits hfiles
  split at h
  · cases h
  · have hframe : Frame s₁ (refreshLocalCheckpoint env (settleCheckpoint env repaired s₁)) :=
      (frame_settleCheckpoint).trans frame_refreshLocalCheckpoint
    have hchain : (refreshLocalCheckpoint env (settleCheckpoint env repaired s₁)).files.chainstate
        = s₁.files.chainstate := by
      rw [refreshLocalCheckpoint_chainstate, settleCheckpoint_chainstate]
    generalize refreshLocalCheckpoint env (settleCheckpoint env repaired s₁) = s₂ at h hframe hchain
    have hbest : s₂.bestHeight = s₁.bestHeight := by rw [hframe.only]
    have htip : s₂.tipHash = s₁.tipHash := by rw [hframe.only]
    have hload : ∀ k, k ≤ s₁.bestHeight → s₂.store.load k = s₁.store.load k :=
      fun k _ => by rw [hframe.store]
    have hfiles₂ : s₂.Replayable c := by
      rw [Replayable, replay_congr hbest hload, hframe.store, hbest]
      exact hfiles
    obtain ⟨hledger, hsnapshot⟩ :=
      loadUtxo_ledger env (hfits.congr hchain hbest htip hload) hfiles₂
    cases h
    split
    · exact hledger.persistChainstate hsnapshot
    · exact ⟨hledger, hsnapshot⟩

section

variable (c : Crypto) (p : ChainParams)

/-- The stored snapshot fits the height files, and the block at which the
validation of the stored chain stops leaves the UTXO set alone. -/
structure OpenLedger (env : Env) (dir : DataDir) : Prop where
  snapshot : ∀ t, loadChain c p env dir = some t → t.SnapshotFits c
  stop : ∀ t, loadChain c p env dir = some t → ∀ blocks blk,
    blocks.length = loadedLength c p env t → blocks ≠ [] → blocks.length < t.heightMap.length →
    (∀ k, k < blocks.length → t.getBlock k = blocks[k]?) → t.getBlock blocks.length = some blk →
    (validateBlock c p env.now false (blocks.map (·.header)) (replayFrom c ∅ 0 blocks) blk).1
      = replayFrom c ∅ 0 blocks

end

/-- A chain that is cut behind its valid part has the replay of what is left. -/
theorem Cut.ledger {t : Blockchain} (hd : s.Described c) (hpool : s.PoolActive)
    (hs : s.IndexOk c H) (hstop : ∀ blocks blk,
      blocks.length = (s.validatedPrefixLength c p env false s.heightMap).length → blocks ≠ [] →
      blocks.length < s.heightMap.length → (∀ k, k < blocks.length → s.getBlock k = blocks[k]?) →
      s.getBlock blocks.length = some blk →
      (validateBlock c p env.now false (blocks.map (·.header)) (replayFrom c ∅ 0 blocks) blk).1
        = replayFrom c ∅ 0 blocks)
    (hcut : Cut c p H (s.validatedPrefixLength c p env false s.heightMap).length s t)
    (hpos : 0 < (s.validatedPrefixLength c p env false s.heightMap).length)
    (hlt : (s.validatedPrefixLength c p env false s.heightMap).length < s.heightMap.length) :
    (s.validatedPrefixLength c p env false s.heightMap).utxo = t.replay c := by
  obtain ⟨blocks, mid, hblocks, hacc, hlen, -, -, hutxo⟩ :=
    validatedPrefix_blocks c p env false s s.heightMap
  obtain ⟨active, hactive, hload⟩ := hpool.blocksOf hd hs
  have hactiveLen := hactive.length_eq
  rw [hlen] at hblocks hcut hpos hlt
  -- the accepted blocks are those of the height files
  have hfile : ∀ k, k < blocks.length → s.getBlock k = blocks[k]? := by
    intro k hk
    have hid := List.getElem?_eq_getElem (show k < s.heightMap.length by omega)
    have hb := List.getElem?_eq_getElem (show k < active.length by omega)
    have hb' := List.getElem?_eq_getElem hk
    have hfound := hactive.getElem hid hb
    rw [hblocks.getElem (by rw [List.getElem?_take, if_pos hk, hid]) hb'] at hfound
    rw [getBlock, hload k (by omega), hb, hb', ← hfound]
  have hmid : replayFrom c ∅ 0 blocks = mid := hacc.replay
  have hbest : t.bestHeight + 1 = blocks.length := by
    have h := hcut.opened.coherent.best
    rw [hcut.heightMap, List.length_take] at h
    have : t.bestHeight + 1 = min blocks.length s.heightMap.length := h
    omega
  rw [replay_eq hbest fun k hk => (hcut.load hk).trans (hfile k hk), hmid]
  rcases hutxo with hsame | ⟨id, blk, failure, hid, hfound, hrefused⟩
  · exact hsame
  · have hblk : s.getBlock blocks.length = some blk := by
      have hb := List.getElem?_eq_getElem (show blocks.length < active.length by omega)
      rw [getBlock, hload _ hlt, hb, ← hactive.getElem hid hb, hfound]
    have hkept := hstop blocks blk hlen.symm (List.ne_nil_of_length_pos hpos) hlt hfile hblk
    rw [hmid, hrefused] at hkept
    exact hkept

theorem openDir_stored_ledger (hH : CollisionFree c H) (hw : AllWritable env) {dir : DataDir}
    {ids : List Hash512} {entries : List (Hash512 × BlockHeader)}
    (hstored : StoredChain c H dir ids entries) (hopens : OpenLedger c p env dir)
    (h : openDir c p env dir = some s) : s.Ledger c ∧ s.SnapshotFits c := by
  obtain ⟨r, hload, hr⟩ := loadChain_ready (p := p) hH hstored
  generalize ht : rebuildKnownBlockState p env r = t at hload
  have hopened : t.Opened c p H := ht ▸ hr.opened hH hstored
  have hdescribed : t.Described c := ht ▸ hr.described hstored
  have hpool : t.PoolActive := ht ▸ hr.poolActive
  have hframe : Frame t (loadState c env t) := frame_loadState
  obtain ⟨hledger, hfits⟩ := loadState_ledger env (hopens.snapshot t hload)
    (hdescribed.replayable hopened.coherent.best)
  have hstop := hopens.stop t hload
  have hn : loadedLength c p env t = ((loadState c env t).validatedPrefixLength c p env false
      (loadState c env t).heightMap).length := by
    rw [loadedLength, hframe.heightMap]
  rw [openDir_eq, hload, Option.bind_some] at h
  have hopened' := hframe.opened hopened
  have hdescribed' := hframe.described hdescribed
  have hpool' := hframe.poolActive hpool
  rw [hn, ← hframe.heightMap] at hstop
  have hget : ∀ k, t.getBlock k = (loadState c env t).getBlock k := by
    intro k
    rw [getBlock, getBlock, hframe.store]
  simp only [hget] at hstop
  generalize loadState c env t = u at h hledger hfits hopened' hdescribed' hpool' hstop
  rcases repair_cases (p := p) hH hw hopened' hdescribed' hpool' rfl with
    ⟨hsame, -⟩ | ⟨t', u', hcut, ht', hframe', hpos, hlt, hutxo, hchain⟩
  · rw [hsame] at h
    refine finish_ledger h ?_ ?_
    · rw [repairHeightFiles_described hdescribed']
      exact hfits
    · rw [repairHeightFiles_described hdescribed']
      exact hdescribed'.replayable hopened'.coherent.best
  · rw [hcut] at h
    have hd' : u'.Described c := hframe'.described ht'.described
    have hreplay : u'.utxo = u'.replay c := by
      rw [hutxo, ht'.ledger hdescribed' hpool' hopened'.indexOk hstop hpos hlt]
      refine (replay_congr (by rw [hframe'.only]) fun k _ => by rw [hframe'.store]).symm
    refine finish_ledger h ?_ ?_
    · rw [repairHeightFiles_described hd']
      intro map hmap
      have heq : some (u'.bestHeight, u'.tipHash, u'.utxo) = some (u'.bestHeight, u'.tipHash, map) :=
        hchain.symm.trans hmap
      cases heq
      exact hreplay
    · rw [repairHeightFiles_described hd']
      exact hd'.replayable (hframe'.opened ht'.opened).coherent.best

/-- Runs in which no file of the active chain is lost to a failed activation
and every stored chain fits its snapshot and stops cleanly. -/
def Rules.ledger (c : Crypto) (p : ChainParams) (H : Set BlockHeader) : Rules where
  start := fun _ => True
  opens := fun env dir => CanOpen c p H env dir ∧ OpenLedger c p env dir
  pass := KeepsFiles c p

theorem Operated.ledger (hs : s.Coherent c p H) (h : Operated s s') (hledger : s.Ledger c) :
    s'.Ledger c := by
  obtain ⟨hframe, -⟩ := h.frame hs
  refine hledger.congr ?_ (by rw [hframe.only]) fun k _ => by rw [hframe.store]
  have hrefresh : ∀ (env : Env) (t : Blockchain), (refreshLocalCheckpoint env t).utxo = t.utxo := by
    intro env t
    obtain ⟨files, cp, heq, -⟩ := refreshLocalCheckpoint_eq env t
    rw [heq]
  have hlocal : ∀ (env : Env) (t : Blockchain), (persistLocalCheckpoint env t).utxo = t.utxo := by
    intro env t
    obtain ⟨files, heq⟩ := persistLocalCheckpoint_eq env t
    rw [heq]
  cases h with
  | pin env =>
      rw [pinCheckpointToTip, hlocal]
      obtain ⟨files, heq⟩ := persistManualCheckpoint_eq env { s with
        localCheckpoint := some (s.bestHeight, s.tipHash), manualCheckpointPinned := true }
      rw [heq]
  | clear env => rw [clearCheckpointPin, hlocal, hrefresh]
  | refresh env => exact hrefresh env s
  | mempool m => rfl

open Regtest

end Blockchain

end Cryptex
