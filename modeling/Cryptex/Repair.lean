import Cryptex.BlockFiles
import Cryptex.Opening

/-!
# Repair and the rest of the constructor

`repair_active_chain_if_needed` forgets the ids behind the valid prefix of
the stored chain and activates the prefix. The other steps of the
constructor change neither the maps nor the block files of a stored chain,
so a directory that is opened yields a coherent state which its files
describe.
-/

namespace Cryptex

open Forest

namespace Blockchain

variable {c : Crypto} {p : ChainParams} {env : Env} {skip : Bool} {H : Set BlockHeader}
  {s s' : Blockchain}

/-! ## Dropping the end of the chain -/

/-- What is left of a state after a list of ids has been dropped. -/
structure Dropped (c : Crypto) (H : Set BlockHeader) (ids : List Hash512) (s s' : Blockchain) :
    Prop where
  only : s' = { s with
    linkIndex := s'.linkIndex
    index := s'.index
    blockPool := s'.blockPool
    chainWork := s'.chainWork
    blockHeight := s'.blockHeight
    heightIndex := s'.heightIndex
    store := s'.store }
  indexOk : s'.IndexOk c H
  index : ∀ {id hdr}, s'.index.lookup id = some hdr ↔ id ∉ ids ∧ s.index.lookup id = some hdr
  pool : ∀ {id b}, s'.blockPool.lookup id = some b ↔ id ∉ ids ∧ s.blockPool.lookup id = some b
  heightFiles : s'.store.heightFiles = s.store.heightFiles
  hashFiles : ∀ {id b}, s'.store.hashFiles.lookup id = some b ↔
    id ∉ ids ∧ s.store.hashFiles.lookup id = some b

theorem Dropped.refl (hs : s.IndexOk c H) : Dropped c H [] s s :=
  ⟨rfl, hs, by simp, by simp, rfl, by simp⟩

theorem Dropped.snoc (hH : CollisionFree c H) {ids : List Hash512} (h : Dropped c H ids s s')
    (id : Hash512) : Dropped c H (ids ++ [id]) s (dropOne c s' id) := by
  have hnot : ∀ {j : Hash512}, j ∉ ids ++ [id] ↔ j ≠ id ∧ j ∉ ids := by
    intro j
    simp only [List.mem_append, List.mem_singleton, not_or]
    exact and_comm
  refine ⟨?_, h.indexOk.erase hH rfl rfl rfl, ?_, ?_, h.heightFiles, ?_⟩
  · rw [dropOne, h.only]
  · intro j hdr
    rw [hnot, dropOne, lookup_erase_iff, h.index, and_assoc]
  · intro j b
    rw [hnot, dropOne, lookup_erase_iff, h.pool, and_assoc]
  · intro j b
    rw [hnot, dropOne, BlockStore.removeByHash, lookup_erase_iff, h.hashFiles, and_assoc]

theorem Dropped.foldl (hH : CollisionFree c H) {ids : List Hash512} (h : Dropped c H ids s s') :
    ∀ (rest : List Hash512), Dropped c H (ids ++ rest) s (rest.foldl (dropOne c) s') := by
  intro rest
  induction rest generalizing ids s' with
  | nil => rw [List.append_nil]; exact h
  | cons id rest ih =>
      rw [List.foldl_cons, ← List.singleton_append, ← List.append_assoc]
      exact ih (h.snoc hH id)

/-! ## Activating the valid prefix -/

/-- The chain that is cut to its first `k` ids. -/
structure Cut (c : Crypto) (p : ChainParams) (H : Set BlockHeader) (k : Nat) (s s' : Blockchain) :
    Prop where
  opened : s'.Opened c p H
  described : s'.Described c
  poolActive : s'.PoolActive
  heightMap : s'.heightMap = s.heightMap.take k
  load : ∀ {i}, i < k → s'.store.load i = s.store.load i
  chainstate : s'.files.chainstate = some (s'.bestHeight, s'.tipHash, s'.utxo)

theorem Opened.indexOk (h : s.Opened c p H) : s.IndexOk c H :=
  h.coherent.index.congr rfl rfl rfl

/-- Each active id has its block in the pool and in its height file. -/
theorem PoolActive.block (hpool : s.PoolActive) (hd : s.Described c) {i : Nat} {id : Hash512}
    (hi : s.heightMap[i]? = some id) :
    ∃ b, s.blockPool.lookup id = some b ∧ s.store.load i = some b := by
  obtain ⟨b, hb, -⟩ := hd.complete hi
  exact ⟨b, (hpool id b).mpr ⟨i, hi, hb⟩, hb⟩

/-- A known id whose block is in the pool is found there. -/
theorem getBlockByHash_pool (hs : s.IndexOk c H) {id : Hash512} {b : Block}
    (hb : s.blockPool.lookup id = some b) : s.getBlockByHash id.toNat = some b := by
  rw [getBlockByHash_id (hs.pool hb), getBlockById, hb]

theorem blocksOf_of_forall : ∀ {path : List Hash512},
    (∀ id ∈ path, ∃ b, s.getBlockByHash id.toNat = some b) → ∃ blocks, s.BlocksOf path blocks
  | [], _ => ⟨[], rfl⟩
  | id :: path, h => by
      obtain ⟨b, hb⟩ := h id (by simp)
      obtain ⟨blocks, hblocks⟩ := blocksOf_of_forall fun j hj => h j (List.mem_cons_of_mem _ hj)
      exact ⟨b :: blocks, by rw [BlocksOf, List.map_cons, List.map_cons, hb, hblocks]⟩

/-- The blocks of a path whose ids are in the pool have the headers of its ids. -/
theorem headersOf_of_pool (hs : s.IndexOk c H) {path : List Hash512} {blocks : List Block}
    (hblocks : s.BlocksOf path blocks)
    (hpool : ∀ id ∈ path, ∃ b, s.blockPool.lookup id = some b) : s.HeadersOf path blocks := by
  rw [HeadersOf, List.forall₂_iff_get]
  refine ⟨hblocks.length_eq, fun i hi hi' => ?_⟩
  obtain ⟨b, hb⟩ := hpool _ (List.getElem_mem hi)
  have hfound := hblocks.getElem (List.getElem?_eq_getElem hi) (List.getElem?_eq_getElem hi')
  rw [getBlockByHash_pool hs hb] at hfound
  cases hfound
  exact hs.pool hb

/-- The active blocks, in order. -/
theorem PoolActive.blocksOf (hpool : s.PoolActive) (hd : s.Described c) (hs : s.IndexOk c H) :
    ∃ blocks, s.BlocksOf s.heightMap blocks ∧
      ∀ i, i < s.heightMap.length → s.store.load i = blocks[i]? := by
  have hfound : ∀ id ∈ s.heightMap, ∃ b, s.getBlockByHash id.toNat = some b := by
    intro id hid
    obtain ⟨i, hi⟩ := List.mem_iff_getElem?.mp hid
    obtain ⟨b, hb, -⟩ := hpool.block hd hi
    exact ⟨b, getBlockByHash_pool hs hb⟩
  obtain ⟨blocks, hblocks⟩ := blocksOf_of_forall hfound
  refine ⟨blocks, hblocks, fun i hi => ?_⟩
  have hid := List.getElem?_eq_getElem hi
  have hlen := hblocks.length_eq
  have hb := List.getElem?_eq_getElem (show i < blocks.length by omega)
  obtain ⟨b, hb', hload⟩ := hpool.block hd hid
  have hfound := hblocks.getElem hid hb
  rw [getBlockByHash_pool hs hb'] at hfound
  rw [hload, hb, hfound]

/-- The prefix of a stored chain, with its blocks, after the rest was dropped. -/
structure Prefix (c : Crypto) (k : Nat) (s mid : Blockchain) (blocks : List Block) : Prop where
  path : ∃ id, mid.PathTo id (s.heightMap.take k)
  blocksOf : mid.BlocksOf (s.heightMap.take k) blocks
  headers : mid.HeadersOf (s.heightMap.take k) blocks
  pool : ∀ {i : Nat} {id b}, s.heightMap[i]? = some id → blocks[i]? = some b →
    mid.blockPool.lookup id = some b
  load : ∀ {i}, i < k → s.store.load i = blocks[i]?

theorem Dropped.prefix (ho : s.Opened c p H) (hd : s.Described c) (hpool : s.PoolActive) {k : Nat}
    (hpos : 0 < k) (hlt : k < s.heightMap.length) {mid : Blockchain}
    (hdrop : Dropped c H (s.heightMap.drop k) s mid) : ∃ blocks, Prefix c k s mid blocks := by
  have hactive : s.PathTo s.tipHash s.heightMap := ho.coherent.active
  have hnd := Forest.PathTo.nodup hactive
  -- the ids of the prefix are not dropped
  have hkeep : ∀ id ∈ s.heightMap.take k, id ∉ s.heightMap.drop k :=
    fun id hid hid' => List.disjoint_take_drop hnd (Nat.le_refl k) hid hid'
  have hlast := List.getElem?_eq_getElem (show k - 1 < s.heightMap.length by omega)
  have hpath : mid.PathTo s.heightMap[k - 1] (s.heightMap.take k) := by
    have htake : s.PathTo s.heightMap[k - 1] (s.heightMap.take (k - 1 + 1)) := hactive.take hlast
    rw [show k - 1 + 1 = k by omega] at htake
    exact ho.indexOk.pathTo hdrop.indexOk htake fun j hj hdr hhdr =>
      hdrop.index.mpr ⟨hkeep j hj, hhdr⟩
  have hblock : ∀ {i : Nat} {id}, (s.heightMap.take k)[i]? = some id →
      ∃ b, mid.blockPool.lookup id = some b ∧ s.store.load i = some b := by
    intro i id hi
    have hi' : s.heightMap[i]? = some id := by
      rw [List.getElem?_take] at hi
      split at hi
      · exact hi
      · cases hi
    obtain ⟨b, hb, hload⟩ := hpool.block hd hi'
    exact ⟨b, hdrop.pool.mpr ⟨hkeep id (List.mem_of_getElem? hi), hb⟩, hload⟩
  have hpooled : ∀ id ∈ s.heightMap.take k, ∃ b, mid.blockPool.lookup id = some b := by
    intro id hid
    obtain ⟨i, hi⟩ := List.mem_iff_getElem?.mp hid
    obtain ⟨b, hb, -⟩ := hblock hi
    exact ⟨b, hb⟩
  obtain ⟨blocks, hblocks⟩ := blocksOf_of_forall (s := mid) fun id hid => by
    obtain ⟨b, hb⟩ := hpooled id hid
    exact ⟨b, getBlockByHash_pool hdrop.indexOk hb⟩
  have hlen := hblocks.length_eq
  rw [List.length_take] at hlen
  have hsame : ∀ {i : Nat} {id b}, (s.heightMap.take k)[i]? = some id → blocks[i]? = some b →
      mid.blockPool.lookup id = some b ∧ s.store.load i = some b := by
    intro i id b hi hb
    obtain ⟨b', hb', hload⟩ := hblock hi
    have hfound := hblocks.getElem hi hb
    rw [getBlockByHash_pool hdrop.indexOk hb'] at hfound
    cases hfound
    exact ⟨hb', hload⟩
  refine ⟨blocks, ⟨_, hpath⟩, hblocks, headersOf_of_pool hdrop.indexOk hblocks hpooled, ?_, ?_⟩
  · intro i id b hi hb
    have hb' := (List.getElem?_eq_some_iff.mp hb).1
    exact (hsame (by rw [List.getElem?_take, if_pos (by omega)]; exact hi) hb).1
  · intro i hi
    have hb := List.getElem?_eq_getElem (show i < blocks.length by omega)
    have hj := List.getElem?_eq_getElem (show i < (s.heightMap.take k).length by
      rw [List.length_take]; omega)
    rw [hb, (hsame hj hb).2]

/-- Activating the valid prefix of a stored chain cuts the chain there. -/
theorem activate_prefix (hH : CollisionFree c H) (hw : AllWritable env) (ho : s.Opened c p H)
    (hd : s.Described c) (hpool : s.PoolActive) {k : Nat} (hpos : 0 < k)
    (hlt : k < s.heightMap.length) {utxo : UTXOSet} {bits : UInt32}
    (hbits : ∀ b, s.store.load (k - 1) = some b → bits = b.header.bits) :
    ∃ t, activatePath p env ((s.heightMap.drop k).foldl (dropOne c) s) (s.heightMap.take k) utxo bits
        = (true, t) ∧ (rebuildKnownBlockState p env t).utxo = utxo ∧
      Cut c p H k s (rebuildKnownBlockState p env t) := by
  have hdrop : Dropped c H (s.heightMap.drop k) s ((s.heightMap.drop k).foldl (dropOne c) s) :=
    (Dropped.refl ho.indexOk).foldl hH _
  generalize (s.heightMap.drop k).foldl (dropOne c) s = mid at hdrop
  obtain ⟨blocks, hpre⟩ := hdrop.prefix ho hd hpool hpos hlt
  obtain ⟨last, hpath⟩ := hpre.path
  obtain ⟨t, ht⟩ := activatePath_writable (p := p) hw hpre.blocksOf utxo bits
  obtain ⟨hfindex, hfheaders, hfchain⟩ := activatePath_files hw ht
  have hact := activatePath_activated (Forest.PathTo.nodup hpath) hpre.blocksOf ht
  have hlen := hpre.blocksOf.length_eq
  have htakeLen : (s.heightMap.take k).length = k := by
    rw [List.length_take]
    omega
  rw [htakeLen] at hlen
  have hlast := Forest.PathTo.getLast? hpath
  have hzip : ∀ {j b}, (j, b) ∈ (s.heightMap.take k).zip blocks →
      mid.index.lookup j = some b.header := fun he => List.forall₂_iff_zip.mp hpre.headers |>.2 he
  have hindex : t.index = mid.index := by rw [hact.only]; rfl
  have hlink : t.linkIndex = mid.linkIndex := by rw [hact.only]; rfl
  have hpoolT : t.blockPool = mid.blockPool := by rw [hact.only]; rfl
  have hmapT : t.heightMap = s.heightMap.take k := by rw [hact.only]; rfl
  have htipT : t.tipHash = last := by
    rw [hact.only]
    show (s.heightMap.take k).getLast?.getD mid.tipHash = _
    rw [hlast]
    rfl
  have hbestT : t.bestHeight = k - 1 := by
    rw [hact.only]
    show (s.heightMap.take k).length - 1 = k - 1
    rw [htakeLen]
  have hbitsT : t.tipBits = bits := by rw [hact.only]; rfl
  have hutxoT : t.utxo = utxo := by rw [hact.only]; rfl
  have hok : t.IndexOk c H := hdrop.indexOk.congr hindex hlink hpoolT
  have hactive : t.PathTo t.tipHash t.heightMap := by
    rw [PathTo, up_congr hindex hlink, htipT, hmapT]
    exact hpath
  have hlastHdr : ∀ {hdr}, t.index.lookup t.tipHash = some hdr → t.tipBits = hdr.bits := by
    intro hdr hhdr
    have hj := hlast
    rw [List.getLast?_eq_getElem?, htakeLen] at hj
    have hb := List.getElem?_eq_getElem (show k - 1 < blocks.length by omega)
    have hmem := List.mem_of_getElem? (List.getElem?_zip_eq_some (z := (_, _)) |>.mpr ⟨hj, hb⟩)
    rw [hindex, htipT, hzip hmem] at hhdr
    cases hhdr
    rw [hbitsT]
    exact hbits _ ((hpre.load (by omega)).trans hb)
  have hstored : (∀ i b, t.store.heightFiles.lookup i = some b → b.header ∈ H) ∧
      ∀ id b, t.store.hashFiles.lookup id = some b → b.header ∈ H := by
    constructor
    · intro i b hb
      rcases hact.heightSub hb with hi | hold
      · have hload := (hact.load hi).symm.trans hb
        rw [← hpre.load (by omega)] at hload
        exact ho.coherent.stored.1 i b hload
      · rw [hdrop.heightFiles] at hold
        exact ho.coherent.stored.1 i b hold
    · intro id b hb
      rcases hact.hashSub hb with he | hold
      · exact hdrop.indexOk.mem (hzip he)
      · exact ho.coherent.stored.2 id b (hdrop.hashFiles.mp hold).2
  have hrebuilt : Rebuilt p t (rebuildKnownBlockState p env t) := rebuild_spec hactive
  have hmapR : (rebuildKnownBlockState p env t).heightMap = s.heightMap.take k := by
    rw [hrebuilt.only]; exact hmapT
  refine ⟨t, ht, by rw [hrebuilt.only]; exact hutxoT, ⟨?_, ?_, ?_, hmapR, ?_, ?_⟩⟩
  · exact hrebuilt.opened hok hstored hactive (by rw [hbestT, hmapT, htakeLen]; omega) hlastHdr
  · refine ⟨by rw [hrebuilt.only]; exact hfindex, ⟨env.visitOrder.visit t.index,
      by rw [hrebuilt.only]; exact hfheaders, env.visitOrder.nodup_keys _, ?_, ?_⟩, ?_, ?_⟩
    · intro e he
      rw [hrebuilt.only]
      exact (env.visitOrder.mem_visit _ _ _).mp he
    · intro id hid
      rw [hmapR] at hid
      obtain ⟨hdr, hhdr⟩ := PathTo.lookup hpath hid
      rw [← hindex] at hhdr
      exact ⟨hdr, (env.visitOrder.mem_visit _ _ _).mpr hhdr⟩
    · intro i id hi
      rw [hmapR] at hi
      have hik := (List.getElem?_eq_some_iff.mp hi).1
      rw [htakeLen] at hik
      have hb := List.getElem?_eq_getElem (show i < blocks.length by omega)
      have hmem := List.mem_of_getElem? (List.getElem?_zip_eq_some (z := (_, _)) |>.mpr ⟨hi, hb⟩)
      refine ⟨_, ?_, hdrop.indexOk.id_eq (hzip hmem)⟩
      rw [hrebuilt.only]
      exact (hact.load (by omega)).trans hb
    · intro id b hb
      rw [hrebuilt.only] at hb
      rcases hact.hashSub hb with he | hold
      · exact hdrop.indexOk.id_eq (hzip he)
      · exact hd.hashFiles (hdrop.hashFiles.mp hold).2
  · intro id b
    rw [hmapR]
    have hload : (rebuildKnownBlockState p env t).store = t.store := by rw [hrebuilt.only]
    have hpoolR : (rebuildKnownBlockState p env t).blockPool = mid.blockPool := by
      rw [hrebuilt.only]; exact hpoolT
    rw [hload, hpoolR, hdrop.pool, hpool id b]
    constructor
    · rintro ⟨hnot, i, hi, hb⟩
      have hik : i < k := by
        by_contra hge
        refine hnot (List.mem_iff_getElem?.mpr ⟨i - k, ?_⟩)
        rw [List.getElem?_drop, show k + (i - k) = i by omega]
        exact hi
      refine ⟨i, by rw [List.getElem?_take, if_pos hik]; exact hi, ?_⟩
      rw [hact.load (by omega), ← hpre.load hik]
      exact hb
    · rintro ⟨i, hi, hb⟩
      have hik := (List.getElem?_eq_some_iff.mp hi).1
      rw [htakeLen] at hik
      rw [hact.load (by omega), ← hpre.load hik] at hb
      have hmem := List.mem_of_getElem? hi
      rw [List.getElem?_take, if_pos hik] at hi
      exact ⟨fun hid => List.disjoint_take_drop (Forest.PathTo.nodup ho.coherent.active)
        (Nat.le_refl k) hmem hid, i, hi, hb⟩
  · intro i hi
    rw [hrebuilt.only, hpre.load hi]
    exact hact.load (by omega)
  · rw [hrebuilt.only]
    exact hfchain

/-! ## Steps that leave chain and block files alone -/

/-- The maps, the block files and the two header files are the same. -/
structure Frame (s s' : Blockchain) : Prop where
  only : s' = { s with
    files := s'.files
    utxo := s'.utxo
    mempool := s'.mempool
    localCheckpoint := s'.localCheckpoint
    manualCheckpointPinned := s'.manualCheckpointPinned
    syncApproval := s'.syncApproval }
  index : s'.files.index = s.files.index
  headers : s'.files.headers = s.files.headers

theorem Frame.refl (s : Blockchain) : Frame s s := ⟨rfl, rfl, rfl⟩

theorem Frame.trans {s₁ s₂ s₃ : Blockchain} (h₁₂ : Frame s₁ s₂) (h₂₃ : Frame s₂ s₃) :
    Frame s₁ s₃ :=
  ⟨by rw [h₂₃.only, h₁₂.only], h₂₃.index.trans h₁₂.index, h₂₃.headers.trans h₁₂.headers⟩

theorem Frame.heightMap (h : Frame s s') : s'.heightMap = s.heightMap := by rw [h.only]

theorem Frame.store (h : Frame s s') : s'.store = s.store := by rw [h.only]

/-- Coherence passes on when the new checkpoint is on the active chain. -/
theorem Frame.coherent (h : Frame s s')
    (hs : Coherent c p H { s with localCheckpoint := none })
    (hcp : ∀ {k hash}, s'.localCheckpoint = some (k, hash) → s.heightMap[k]? = some hash) :
    s'.Coherent c p H := by
  rw [h.only]
  exact
    { index := hs.index.congr rfl rfl rfl
      stored := hs.stored
      active := hs.active
      best := hs.best
      tipBits := hs.tipBits
      work := hs.work
      activeWork := hs.activeWork
      ancestorWork := hs.ancestorWork
      activeHeight := hs.activeHeight
      heightIndex := hs.heightIndex
      children := hs.children
      checkpoint := hcp }

theorem Coherent.forgetCheckpoint (hs : s.Coherent c p H) :
    Coherent c p H { s with localCheckpoint := none } where
  index := hs.index.congr rfl rfl rfl
  stored := hs.stored
  active := hs.active
  best := hs.best
  tipBits := hs.tipBits
  work := hs.work
  activeWork := hs.activeWork
  ancestorWork := hs.ancestorWork
  activeHeight := hs.activeHeight
  heightIndex := hs.heightIndex
  children := hs.children
  checkpoint := fun hk => by cases hk

theorem Frame.rebuilt (h : Frame s s') (hs : Rebuilt p s s) : Rebuilt p s' s' := by
  rw [h.only]
  exact ⟨rfl, hs.children, hs.chainWork, hs.blockHeight, hs.heightIndex⟩

theorem Frame.opened (h : Frame s s') (hs : s.Opened c p H) : s'.Opened c p H := by
  have hforget : Frame s { s' with localCheckpoint := none } :=
    ⟨by rw [h.only], h.index, h.headers⟩
  exact ⟨hforget.coherent hs.coherent (fun hk => by cases hk), h.rebuilt hs.rebuilt⟩

theorem Frame.described (h : Frame s s') (hs : s.Described c) : s'.Described c := by
  have hindex : s'.index = s.index := by rw [h.only]
  refine ⟨by rw [h.index, h.heightMap]; exact hs.index, ?_, ?_, ?_⟩
  · rw [h.headers, hindex, h.heightMap]
    exact hs.headers
  · intro i id hi
    rw [h.heightMap] at hi
    rw [h.store]
    exact hs.complete hi
  · intro id b hb
    rw [h.store] at hb
    exact hs.hashFiles hb

theorem Frame.poolActive (h : Frame s s') (hs : s.PoolActive) : s'.PoolActive := by
  intro id b
  rw [h.heightMap, h.store, show s'.blockPool = s.blockPool by rw [h.only]]
  exact hs id b

theorem frame_persistChainstate : Frame s (persistChainstate env s) := by
  unfold persistChainstate
  split <;> exact ⟨rfl, rfl, rfl⟩

theorem frame_persistLocalCheckpoint : Frame s (persistLocalCheckpoint env s) := by
  unfold persistLocalCheckpoint
  split <;> exact ⟨rfl, rfl, rfl⟩

theorem frame_persistManualCheckpoint : Frame s (persistManualCheckpoint env s) := by
  unfold persistManualCheckpoint
  split <;> exact ⟨rfl, rfl, rfl⟩

theorem frame_refreshLocalCheckpoint : Frame s (refreshLocalCheckpoint env s) := by
  unfold refreshLocalCheckpoint
  split
  · exact Frame.refl s
  · simp only
    split
    · exact Frame.refl s
    · split
      · exact Frame.refl s
      · refine Frame.trans ?_ frame_persistLocalCheckpoint
        exact ⟨rfl, rfl, rfl⟩

theorem frame_loadUtxo : Frame s (loadUtxo c env s) := by
  have hload : Frame s (loadChainstateSnapshot s).2 := by
    unfold loadChainstateSnapshot
    split
    · exact Frame.refl s
    · split <;> exact ⟨rfl, rfl, rfl⟩
  rw [loadUtxo]
  generalize loadChainstateSnapshot s = res at hload
  obtain ⟨ok, t⟩ := res
  cases ok with
  | true => exact hload
  | false =>
      exact hload.trans ((⟨rfl, rfl, rfl⟩ : Frame t (rebuildUtxoFromActiveChain c t)).trans
        frame_persistChainstate)

theorem frame_loadState : Frame s (loadState c env s) := by
  have hcp : Frame s (loadManualCheckpoint (loadLocalCheckpoint s)) := by
    unfold loadManualCheckpoint
    split <;> exact ⟨rfl, rfl, rfl⟩
  exact hcp.trans ((⟨rfl, rfl, rfl⟩ : Frame _ (loadSyncApproval _)).trans frame_loadUtxo)

theorem frame_revokeSyncApproval {approval : SyncApprovalState} :
    Frame s (revokeSyncApproval env s approval) := by
  unfold revokeSyncApproval
  simp only
  split <;> exact ⟨rfl, rfl, rfl⟩

theorem frame_settleCheckpoint {repaired : Bool} : Frame s (settleCheckpoint env repaired s) := by
  have hclear : Frame s (clearStaleLocalCheckpointIfNeeded env s).2 := by
    unfold clearStaleLocalCheckpointIfNeeded
    split
    · exact Frame.refl s
    · split
      · exact Frame.refl s
      · simp only
        split
        · split <;> exact ⟨rfl, rfl, rfl⟩
        · split
          · refine Frame.trans ?_ frame_revokeSyncApproval
            split <;> exact ⟨rfl, rfl, rfl⟩
          · split <;> exact ⟨rfl, rfl, rfl⟩
  unfold settleCheckpoint
  split
  · exact Frame.refl s
  · split
    · exact frame_refreshLocalCheckpoint
    · split
      · next heq =>
          rw [heq] at hclear
          exact hclear.trans frame_refreshLocalCheckpoint
      · next heq =>
          rw [heq] at hclear
          exact hclear

/-! ## The cases of a repair -/

/-- A stored chain is valid in full or not at all and stays, or it is cut
behind its valid prefix. -/
theorem repair_cases (hH : CollisionFree c H) (hw : AllWritable env) (ho : s.Opened c p H)
    (hd : s.Described c) (hpool : s.PoolActive) {v : PrefixResult}
    (hv : s.validatedPrefixLength c p env false s.heightMap = v) :
    (repairActiveChainIfNeeded c p env s = (false, s) ∧
        (v.length = s.heightMap.length ∨ v.length = 0)) ∨
      ∃ t s', repairActiveChainIfNeeded c p env s = (true, s') ∧ Cut c p H v.length s t ∧
        Frame t s' ∧ 0 < v.length ∧ v.length < s.heightMap.length ∧ s'.utxo = v.utxo ∧
        s'.files.chainstate = some (s'.bestHeight, s'.tipHash, s'.utxo) := by
  obtain ⟨blocks, mid, hblocks, -, hlen, hle, hbits, -⟩ :=
    validatedPrefix_blocks c p env false s s.heightMap
  rw [hv] at hblocks hlen hbits
  rw [repairActiveChainIfNeeded, if_neg ho.coherent.heightMap_ne_nil]
  simp only [hv]
  by_cases hfull : v.length = s.heightMap.length
  · rw [if_pos hfull]
    exact Or.inl ⟨rfl, Or.inl hfull⟩
  · rw [if_neg hfull]
    by_cases hzero : v.length = 0
    · rw [if_pos hzero]
      exact Or.inl ⟨rfl, Or.inr hzero⟩
    · rw [if_neg hzero]
      right
      have hpos : 0 < v.length := Nat.pos_of_ne_zero hzero
      have hlt : v.length < s.heightMap.length := by omega
      have hlastBits : ∀ b, s.store.load (v.length - 1) = some b → v.tipBits = b.header.bits := by
        intro b hload
        have hid := List.getElem?_eq_getElem (show v.length - 1 < s.heightMap.length by omega)
        obtain ⟨b₀, hb⟩ : ∃ b₀, blocks[v.length - 1]? = some b₀ :=
          ⟨_, List.getElem?_eq_getElem (by omega)⟩
        have hid' : (s.heightMap.take v.length)[v.length - 1]? = some s.heightMap[v.length - 1] := by
          rw [List.getElem?_take, if_pos (by omega), hid]
        obtain ⟨b', hb', hload'⟩ := hpool.block hd hid
        have hfound := hblocks.getElem hid' hb
        rw [getBlockByHash_pool ho.indexOk hb'] at hfound
        rw [hload] at hload'
        cases hload'
        cases hfound
        rw [hbits, List.getLast?_eq_getElem?, ← hlen, hb]
        rfl
      obtain ⟨t, ht, hutxo, hcut⟩ := activate_prefix (p := p) hH hw ho hd hpool hpos hlt hlastBits
      rw [ht]
      simp only
      generalize rebuildKnownBlockState p env t = r at hcut hutxo
      have hdone : ∀ {r' : Blockchain}, Frame r r' → r'.files.chainstate = r.files.chainstate →
          r'.utxo = r.utxo → ∃ t s', (true, r') = (true, s') ∧ Cut c p H v.length s t ∧
            Frame t s' ∧ 0 < v.length ∧ v.length < s.heightMap.length ∧ s'.utxo = v.utxo ∧
            s'.files.chainstate = some (s'.bestHeight, s'.tipHash, s'.utxo) := by
        intro r' hframe hchain hutxo'
        refine ⟨r, r', rfl, hcut, hframe, hpos, hlt, hutxo'.trans hutxo, ?_⟩
        rw [hchain, hcut.chainstate, hutxo', show r'.bestHeight = r.bestHeight by rw [hframe.only],
          show r'.tipHash = r.tipHash by rw [hframe.only]]
      -- the approval state is revoked or not
      split
      · exact hdone (Frame.refl r) rfl rfl
      · split
        · refine hdone frame_revokeSyncApproval ?_ rfl
          unfold revokeSyncApproval
          simp only
          split <;> rfl
        · exact hdone (Frame.refl r) rfl rfl

/-! ## The height files -/

/-- With the height files complete there is nothing to restore. -/
theorem restoreHeightFiles_complete {st : BlockStore} : ∀ (ids : List Hash512) (h : Nat),
    (∀ i, i < ids.length → ∃ b, st.heightFiles.lookup (h + i) = some b) →
    restoreHeightFiles env st h ids = (st, 0)
  | [], _, _ => rfl
  | id :: rest, h, hfiles => by
      have hexists : st.fileExists h = true := by
        obtain ⟨b, hb⟩ := hfiles 0 (by simp)
        rw [Nat.add_zero] at hb
        rw [BlockStore.fileExists, BlockStore.load, hb]
        rfl
      rw [restoreHeightFiles, if_pos hexists]
      refine restoreHeightFiles_complete rest (h + 1) fun i hi => ?_
      obtain ⟨b, hb⟩ := hfiles (i + 1) (by rw [List.length_cons]; omega)
      exact ⟨b, by rw [show h + 1 + i = h + (i + 1) by omega]; exact hb⟩

theorem repairHeightFiles_described (hd : s.Described c) :
    repairHeightFilesIfNeeded env s = (false, s) := by
  have hall : ∀ i, i < s.heightMap.length → ∃ b, s.store.heightFiles.lookup (0 + i) = some b := by
    intro i hi
    obtain ⟨b, hb, -⟩ := hd.complete (List.getElem?_eq_getElem hi)
    exact ⟨b, by rw [Nat.zero_add]; exact hb⟩
  rw [repairHeightFilesIfNeeded, restoreHeightFiles_complete s.heightMap 0 hall]
  rfl

/-- Restoring writes blocks that have a by-hash file. -/
theorem restoreHeightFiles_sub {P : Block → Prop} (env : Env) : ∀ (ids : List Hash512) (h : Nat)
    {st : BlockStore}, (∀ i b, st.heightFiles.lookup i = some b → P b) →
    (∀ id b, st.hashFiles.lookup id = some b → P b) →
    (∀ i b, (restoreHeightFiles env st h ids).1.heightFiles.lookup i = some b → P b) ∧
      (restoreHeightFiles env st h ids).1.hashFiles = st.hashFiles
  | [], _, _, hh, _ => ⟨hh, rfl⟩
  | id :: rest, h, st, hh, hf => by
      rw [restoreHeightFiles]
      split
      · exact restoreHeightFiles_sub env rest (h + 1) hh hf
      · cases hload : st.loadByHash id with
        | none => exact restoreHeightFiles_sub env rest (h + 1) hh hf
        | some blk =>
            simp only [BlockStore.store]
            split
            · next heq =>
                split at heq
                · cases heq
                · cases heq
                  exact restoreHeightFiles_sub env rest (h + 1) hh hf
            · next heq =>
                split at heq
                · cases heq
                  refine restoreHeightFiles_sub env rest (h + 1) (fun i b hb => ?_) hf
                  rw [FinMap.lookup_insert_ite] at hb
                  split at hb
                  · cases hb
                    exact hf id _ hload
                  · exact hh i b hb
                · cases heq

end Blockchain

end Cryptex
