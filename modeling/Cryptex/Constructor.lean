import Cryptex.Repair

/-!
# The constructor as a whole

Opening an empty directory, or one with a stored chain, yields a coherent
state whose maps were just recomputed. With every write succeeding, the
files describe this state and the pool holds its active blocks.
-/

namespace Cryptex

open Forest

namespace Blockchain

variable {c : Crypto} {p : ChainParams} {env : Env} {skip : Bool} {H : Set BlockHeader}
  {s s' : Blockchain} {dir : DataDir}

/-! ## The end of the constructor -/

/-- The steps after the repair of the active chain. -/
def finish (c : Crypto) (env : Env) (repaired : Bool) (s : Blockchain) : Option Blockchain :=
  let (restored, s) := repairHeightFilesIfNeeded env s
  let s := settleCheckpoint env repaired s
  if !s.activeChainMatchesLocalCheckpoint then none
  else
    let s := loadUtxo c env (refreshLocalCheckpoint env s)
    some (if restored then persistChainstate env s else s)

theorem openDir_eq (dir : DataDir) : openDir c p env dir = (loadChain c p env dir).bind fun s =>
    finish c env (repairActiveChainIfNeeded c p env (loadState c env s)).1
      (repairActiveChainIfNeeded c p env (loadState c env s)).2 := by
  unfold openDir
  cases loadChain c p env dir <;> rfl

theorem activeChainMatches_iff : s.activeChainMatchesLocalCheckpoint = true ↔
    ∀ k hash, s.localCheckpoint = some (k, hash) → s.heightMap[k]? = some hash := by
  unfold activeChainMatchesLocalCheckpoint
  cases s.localCheckpoint with
  | none => simp
  | some cp =>
      obtain ⟨k, hash⟩ := cp
      simp only [decide_eq_true_eq, Option.some.injEq, Prod.mk.injEq]
      constructor
      · intro h k' hash' heq
        obtain ⟨rfl, rfl⟩ := heq
        exact h
      · intro h
        exact h k hash ⟨rfl, rfl⟩

theorem repairHeightFiles_opened (env : Env) (ho : s.Opened c p H) :
    (repairHeightFilesIfNeeded env s).2.Opened c p H := by
  obtain ⟨store, hstore, heq⟩ : ∃ store : BlockStore,
      ((∀ i b, store.heightFiles.lookup i = some b → b.header ∈ H) ∧
        ∀ id b, store.hashFiles.lookup id = some b → b.header ∈ H) ∧
      (repairHeightFilesIfNeeded env s).2 = { s with store := store } := by
    obtain ⟨hheight, hhash⟩ := restoreHeightFiles_sub (P := fun b => b.header ∈ H) env s.heightMap 0
      ho.coherent.stored.1 ho.coherent.stored.2
    have hfiles : ∀ id b, (restoreHeightFiles env s.store 0 s.heightMap).1.hashFiles.lookup id
        = some b → b.header ∈ H := by
      intro id b hb
      rw [hhash] at hb
      exact ho.coherent.stored.2 id b hb
    unfold repairHeightFilesIfNeeded
    generalize restoreHeightFiles env s.store 0 s.heightMap = res at hheight hfiles
    obtain ⟨st, n⟩ := res
    simp only at hheight hfiles ⊢
    split
    · exact ⟨st, ⟨hheight, hfiles⟩, rfl⟩
    · exact ⟨_, ⟨lookup_prune_stored hheight, hfiles⟩, rfl⟩
  rw [heq]
  have hs := ho.coherent
  exact ⟨
    { index := hs.index.congr rfl rfl rfl
      stored := hstore
      active := hs.active
      best := hs.best
      tipBits := hs.tipBits
      work := hs.work
      activeWork := hs.activeWork
      ancestorWork := hs.ancestorWork
      activeHeight := hs.activeHeight
      heightIndex := hs.heightIndex
      children := hs.children
      checkpoint := hs.checkpoint },
    ⟨rfl, ho.rebuilt.children, ho.rebuilt.chainWork, ho.rebuilt.blockHeight, ho.rebuilt.heightIndex⟩⟩

theorem loadUtxo_eq (c : Crypto) (env : Env) (s : Blockchain) :
    ∃ files utxo, loadUtxo c env s = { s with files := files, utxo := utxo } := by
  obtain ⟨utxo, hload⟩ : ∃ utxo, (loadChainstateSnapshot s).2 = { s with utxo := utxo } := by
    unfold loadChainstateSnapshot
    split
    · exact ⟨s.utxo, rfl⟩
    · split <;> exact ⟨_, rfl⟩
  rw [loadUtxo]
  generalize loadChainstateSnapshot s = res at hload
  obtain ⟨ok, t⟩ := res
  cases ok with
  | true => exact ⟨s.files, utxo, hload⟩
  | false =>
      obtain ⟨files, hfiles⟩ := persistChainstate_eq env (rebuildUtxoFromActiveChain c t)
      have hload' : t = { s with utxo := utxo } := hload
      subst hload'
      exact ⟨files, _, hfiles⟩

/-- The end of the constructor changes neither maps nor block files once the
height files are in order, and checks the checkpoint. -/
theorem finish_frame {repaired : Bool} (h : finish c env repaired s = some s') :
    Frame (repairHeightFilesIfNeeded env s).2 s' ∧
      ∀ {k hash}, s'.localCheckpoint = some (k, hash) → s'.heightMap[k]? = some hash := by
  rw [finish] at h
  generalize repairHeightFilesIfNeeded env s = res at h
  obtain ⟨restored, s₁⟩ := res
  simp only at h
  split at h
  · cases h
  · next hmatch =>
      have hmatch' : (settleCheckpoint env repaired s₁).activeChainMatchesLocalCheckpoint = true := by
        simpa using hmatch
      have hsettle : Frame s₁ (settleCheckpoint env repaired s₁) := frame_settleCheckpoint
      generalize settleCheckpoint env repaired s₁ = s₂ at h hmatch' hsettle
      have hcp := activeChainMatches_iff.mp hmatch'
      obtain ⟨files, cp, hrefresh, -, -, hcase⟩ := refreshLocalCheckpoint_eq env s₂
      have hframe : Frame s₂ (refreshLocalCheckpoint env s₂) := frame_refreshLocalCheckpoint
      have hcp' : ∀ {k hash}, (refreshLocalCheckpoint env s₂).localCheckpoint = some (k, hash) →
          (refreshLocalCheckpoint env s₂).heightMap[k]? = some hash := by
        intro k hash hk
        rw [hrefresh] at hk ⊢
        have hk' : cp = some (k, hash) := hk
        rcases hcase with hold | ⟨hash', hnew, hget⟩
        · exact hcp k hash (hold ▸ hk')
        · rw [hnew] at hk'
          cases hk'
          exact hget
      have hload : Frame (refreshLocalCheckpoint env s₂) (loadUtxo c env (refreshLocalCheckpoint env s₂)) :=
        frame_loadUtxo
      have hall := hsettle.trans (hframe.trans hload)
      have hdone : ∀ {k hash}, (loadUtxo c env (refreshLocalCheckpoint env s₂)).localCheckpoint
          = some (k, hash) →
          (loadUtxo c env (refreshLocalCheckpoint env s₂)).heightMap[k]? = some hash := by
        intro k hash hk
        obtain ⟨files', utxo, hutxo⟩ := loadUtxo_eq c env (refreshLocalCheckpoint env s₂)
        rw [hutxo] at hk ⊢
        exact hcp' hk
      cases h
      split
      · obtain ⟨files', hfiles⟩ := persistChainstate_eq env
          (loadUtxo c env (refreshLocalCheckpoint env s₂))
        refine ⟨hall.trans frame_persistChainstate, ?_⟩
        rw [hfiles]
        exact hdone
      · exact ⟨hall, hdone⟩

/-! ## Opening -/

theorem repair_single (h : s.heightMap.length = 1) :
    repairActiveChainIfNeeded c p env s = (false, s) := by
  obtain ⟨blocks, mid, -, -, hlen, hle, -⟩ := validatedPrefix_blocks c p env false s s.heightMap
  rw [repairActiveChainIfNeeded]
  split
  · rfl
  · simp only
    split
    · rfl
    · split
      · rfl
      · omega

/-- Opening an empty directory founds a chain of one block. -/
theorem openDir_empty (hg : (Block.createGenesis c p).header ∈ H)
    (h : openDir c p env DataDir.empty = some s) : ∃ f, Founded c p env f ∧
      Frame (repairHeightFilesIfNeeded env (loadState c env (rebuildKnownBlockState p env f))).2 s ∧
      s.Coherent c p H ∧ Rebuilt p s s := by
  obtain ⟨f, hload, hf⟩ := loadChain_empty c p env
  have hloaded : (loadState c env (rebuildKnownBlockState p env f)).Opened c p H :=
    (frame_loadState).opened (hf.opened hg)
  have hsingle : (loadState c env (rebuildKnownBlockState p env f)).heightMap.length = 1 := by
    rw [(frame_loadState).heightMap, (rebuild_spec hf.active).only]
    show f.heightMap.length = 1
    rw [hf.heightMap]
    rfl
  rw [openDir_eq, hload, Option.bind_some, repair_single hsingle] at h
  obtain ⟨hframe, hcp⟩ := finish_frame h
  have hopened := repairHeightFiles_opened env hloaded
  refine ⟨f, hf, hframe, hframe.coherent hopened.coherent fun hk => ?_,
    hframe.rebuilt hopened.rebuilt⟩
  rw [← hframe.heightMap]
  exact hcp hk

/-- What opening a directory yields when every write succeeds: a coherent
state, just recomputed, described by its files, with its active blocks in
the pool. -/
structure Ordered (c : Crypto) (p : ChainParams) (H : Set BlockHeader) (s : Blockchain) : Prop where
  coherent : s.Coherent c p H
  rebuilt : Rebuilt p s s
  described : s.Described c
  poolActive : s.PoolActive

/-- A directory that is empty or holds a stored chain. -/
def Bootable (c : Crypto) (p : ChainParams) (H : Set BlockHeader) (dir : DataDir) : Prop :=
  (dir = DataDir.empty ∧ (Block.createGenesis c p).header ∈ H) ∨
    ∃ ids entries, StoredChain c H dir ids entries

theorem Founded.described {f : Blockchain} (hw : AllWritable env) (hf : Founded c p env f) :
    (rebuildKnownBlockState p env f).Described c ∧ (rebuildKnownBlockState p env f).PoolActive := by
  obtain ⟨hfile, hindex, hheaders⟩ := hf.written hw
  rw [(rebuild_spec hf.active).only]
  constructor
  · refine ⟨hindex, ⟨_, hheaders, env.visitOrder.nodup_keys _, fun e he => ?_, fun id hid => ?_⟩, ?_, ?_⟩
    · exact (env.visitOrder.mem_visit _ _ _).mp he
    · have hid' : id ∈ f.heightMap := hid
      obtain ⟨hdr, hhdr⟩ := PathTo.lookup hf.active hid'
      exact ⟨hdr, (env.visitOrder.mem_visit _ _ _).mpr hhdr⟩
    · intro i id hi
      have hi' : f.heightMap[i]? = some id := hi
      rw [hf.heightMap, List.getElem?_singleton] at hi'
      split at hi'
      · next hzero =>
          cases hi'
          exact ⟨_, hzero ▸ hfile, rfl⟩
      · cases hi'
    · intro id b hb
      obtain ⟨rfl, rfl⟩ := hf.hashFiles hb
      rfl
  · intro id b
    show f.blockPool.lookup id = some b ↔ ∃ h, f.heightMap[h]? = some id ∧ f.store.load h = some b
    rw [hf.pool, hf.heightMap, FinMap.lookup_insert_ite]
    constructor
    · intro hb
      split at hb
      · next heq =>
          cases hb
          exact ⟨0, by rw [heq]; rfl, hfile⟩
      · cases hb
    · rintro ⟨i, hi, hb⟩
      obtain ⟨rfl, rfl⟩ := hf.heightFiles hb
      rw [List.getElem?_cons_zero] at hi
      cases hi
      rw [if_pos rfl]

/-- Opening a directory from which a chain can be started or restored. -/
theorem openDir_ordered (hH : CollisionFree c H) (hw : AllWritable env) (hdir : Bootable c p H dir)
    (h : openDir c p env dir = some s) : s.Ordered c p H := by
  -- the loaded chain, and the chain after its repair
  obtain ⟨s₁, hload, ho, hd, hpool⟩ : ∃ s₁, loadChain c p env dir = some s₁ ∧ s₁.Opened c p H ∧
      s₁.Described c ∧ s₁.PoolActive := by
    rcases hdir with ⟨rfl, hg⟩ | ⟨ids, entries, hstored⟩
    · obtain ⟨f, hload, hf⟩ := loadChain_empty c p env
      exact ⟨_, hload, hf.opened hg, (hf.described hw).1, (hf.described hw).2⟩
    · obtain ⟨r, hload, hr⟩ := loadChain_ready (p := p) hH hstored
      exact ⟨_, hload, hr.opened hH hstored, hr.described hstored,
        hr.poolActive⟩
  have hframe : Frame s₁ (loadState c env s₁) := frame_loadState
  obtain ⟨s₂, hfinish, ho₂, hd₂, hpool₂⟩ : ∃ s₂,
      finish c env (repairActiveChainIfNeeded c p env (loadState c env s₁)).1 s₂ = some s ∧
      s₂.Opened c p H ∧ s₂.Described c ∧ s₂.PoolActive := by
    rw [openDir_eq, hload, Option.bind_some] at h
    rcases repair_cases (p := p) hH hw (hframe.opened ho) (hframe.described hd)
        (hframe.poolActive hpool) rfl with ⟨hsame, -⟩ | ⟨t, s₂, hcut, ht, hframe₂, -⟩
    · rw [hsame] at h ⊢
      exact ⟨_, h, hframe.opened ho, hframe.described hd, hframe.poolActive hpool⟩
    · rw [hcut] at h ⊢
      exact ⟨_, h, hframe₂.opened ht.opened, hframe₂.described ht.described,
        hframe₂.poolActive ht.poolActive⟩
  obtain ⟨hframe', hcp⟩ := finish_frame hfinish
  rw [repairHeightFiles_described hd₂] at hframe'
  refine ⟨hframe'.coherent ho₂.coherent fun hk => ?_, hframe'.rebuilt ho₂.rebuilt,
    hframe'.described hd₂, hframe'.poolActive hpool₂⟩
  rw [← hframe'.heightMap]
  exact hcp hk

end Blockchain

end Cryptex
