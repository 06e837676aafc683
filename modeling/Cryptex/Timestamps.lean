import Cryptex.Diagnosis
import Cryptex.Lookup

/-!
# Heights and timestamps

Every block on a valid path is younger than its parent, so that a timestamp
bounds the height of its block. In a run that starts from nothing this holds
of every height file, whichever branch the file was written for, and a block
on top of the tip has a height of 32 bits.
-/

namespace Cryptex

/-- Along an accepted path the timestamps are at least the heights. -/
theorem Accepts.height_le_timestamp {c : Crypto} {p : ChainParams} {skip : Bool} {now : Nat} {hist : List BlockHeader}
    {map map' : UTXOSet} {blocks : List Block} (h : Accepts c p now skip hist map blocks map')
    (hlast : ∀ last, hist.getLast? = some last → hist.length ≤ last.timestamp.toNat + 1) :
    ∀ {j b}, blocks[j]? = some b → hist.length + j ≤ b.header.timestamp.toNat := by
  induction h with
  | nil => intro j b hb; cases hb
  | @cons hist map blk map₁ rest map' hv _ ih =>
      have hfirst : hist.length ≤ blk.header.timestamp.toNat := by
        obtain ⟨-, htime, -⟩ := checkHeaderOnPath_none (validateBlock_none hv).1
        unfold blockTimestampValid at htime
        split at htime
        · cases htime
        · cases hparent : hist.getLast? with
          | none =>
              rw [List.getLast?_eq_none_iff.mp hparent]
              exact Nat.zero_le _
          | some parent =>
              have hle := hlast parent hparent
              rw [hparent] at htime
              simp only [Bool.not_eq_true', decide_eq_false_iff_not, UInt32.le_iff_toNat_le] at htime
              omega
      intro j b hb
      cases j with
      | zero =>
          rw [List.getElem?_cons_zero] at hb
          cases hb
          exact hfirst
      | succ j =>
          rw [List.getElem?_cons_succ] at hb
          have hrest := ih (fun last hl => by
            rw [List.getLast?_append, List.getLast?_singleton, Option.some_or] at hl
            cases hl
            rw [List.length_append, List.length_singleton]
            omega) hb
          rw [List.length_append, List.length_singleton] at hrest
          omega

namespace Blockchain

variable {c : Crypto} {p : ChainParams} {env : Env} {skip : Bool} {H : Set BlockHeader}
  {s s' : Blockchain} {blk : Block}

/-! ## The invariant -/

/-- Every height file holds a block whose timestamp is at least the height,
and the tip has one. -/
structure Timed (s : Blockchain) : Prop where
  file : ∀ k b, s.store.load k = some b → k ≤ b.header.timestamp.toNat
  tip : 0 < s.bestHeight → ∃ b, s.store.load s.bestHeight = some b

/-- The tip is the same and so are the height files. -/
theorem Timed.congr (h : s.Timed) (hfiles : s'.store.heightFiles = s.store.heightFiles)
    (hbest : s'.bestHeight = s.bestHeight) : s'.Timed := by
  constructor
  · intro k b hb
    rw [BlockStore.load, hfiles] at hb
    exact h.file k b hb
  · rw [hbest, BlockStore.load, hfiles]
    exact h.tip

theorem Timed.cacheBlock (h : s.Timed) : (s.cacheBlock c env blk).Timed :=
  h.congr (BlockStore.storeByHash_heightFiles _ _ _ _) rfl

/-- The blocks of a valid path. -/
theorem PathValid.blocks_timed {path : List Hash512} (h : s.PathValid c p env skip path) :
    ∃ blocks, s.BlocksOf path blocks ∧
      ∀ {j : Nat} {b : Block}, blocks[j]? = some b → j ≤ b.header.timestamp.toNat := by
  obtain ⟨blocks, hblocks, hacc, -⟩ := h.accepts
  refine ⟨blocks, hblocks, fun {j b} hb => ?_⟩
  have := hacc.height_le_timestamp (fun last hl => by cases hl) hb
  rwa [List.length_nil, Nat.zero_add] at this

theorem Timed.failed (h : s.Timed) {path : List Hash512} (hvalid : s.PathValid c p env skip path)
    {utxo : UTXOSet} {bits : UInt32} (hact : activatePath p env s path utxo bits = (false, s')) :
    s'.Timed := by
  obtain ⟨blocks, hblocks, htimed⟩ := hvalid.blocks_timed
  rcases activatePath_false hact with rfl | ⟨blocks', store, hm, hwrite, rfl⟩
  · exact h
  · rw [hblocks.mapM_eq] at hm
    cases hm
    have hstore : (writePath env.canWrite s.store 0 (path.zip blocks)).1 = store := by rw [hwrite]
    -- a height file is of the path or as before
    have hload : ∀ k, (∃ b, store.load k = some b ∧ k ≤ b.header.timestamp.toNat) ∨
        store.load k = s.store.load k := by
      intro k
      rcases writePath_height_cases (path.zip blocks) s.store 0 k with
        ⟨j, e, hk, he, -, hload⟩ | ⟨-, hload⟩
      · rw [hstore] at hload
        refine Or.inl ⟨e.2, hload, ?_⟩
        have := htimed (List.getElem?_zip_eq_some.mp he).2
        omega
      · rw [hstore] at hload
        exact Or.inr hload
    constructor
    · intro k b hb
      have hb' : store.load k = some b := hb
      rcases hload k with ⟨b', hb'', hle⟩ | hold
      · rw [hb'] at hb''
        cases hb''
        exact hle
      · rw [hold] at hb'
        exact h.file k b hb'
    · intro hpos
      obtain ⟨b, hb⟩ := h.tip hpos
      rcases hload s.bestHeight with ⟨b', hb', -⟩ | hold
      · exact ⟨b', hb'⟩
      · exact ⟨b, hold.trans hb⟩

theorem Timed.switched (h : s.Timed) {path : List Hash512} (hnd : path.Nodup) (hne : path ≠ [])
    (hvalid : s.PathValid c p env skip path) {utxo : UTXOSet} {bits : UInt32}
    (hact : activatePath p env s path utxo bits = (true, s')) : s'.Timed := by
  obtain ⟨blocks, hblocks, htimed⟩ := hvalid.blocks_timed
  have hlen := hblocks.length_eq
  have hdone := activatePath_activated hnd hblocks hact
  have hpos : 0 < path.length := List.length_pos_iff.mpr hne
  have hbest : s'.bestHeight = path.length - 1 := by rw [hdone.only]; rfl
  constructor
  · intro k b hb
    rcases hdone.heightSub hb with hlt | hold
    · have hb' : s'.store.load k = some b := hb
      rw [hdone.load hlt] at hb'
      exact htimed hb'
    · exact h.file k b hold
  · intro _
    rw [hbest, hdone.load (by omega)]
    exact ⟨_, List.getElem?_eq_getElem (show path.length - 1 < blocks.length by omega)⟩

theorem Timed.acceptOne (hH : CollisionFree c H) (hs : s.Coherent c p H) (hb : blk.header ∈ H)
    (h : s.Timed) : (s.acceptOne c p env skip blk).2.Timed := by
  have hcoh : (s.cacheBlock c env blk).Coherent c p H := hs.cacheBlock hH hb
  have hcached : (s.cacheBlock c env blk).Timed := h.cacheBlock
  have hout : Outcome c p env skip s blk (s.acceptOne c p env skip blk).1
      (s.acceptOne c p env skip blk).2 := acceptOne_outcome hH hs hb
  generalize s.acceptOne c p env skip blk = res at hout
  obtain ⟨v, s'⟩ := res
  simp only at hout ⊢
  cases hout with
  | rejected _ _ => exact h
  | processed _ _ => exact hcached
  | orphan _ _ _ _ => exact hcached.congr rfl rfl
  | side _ _ _ _ => exact hcached.congr rfl rfl
  | refused _ _ _ _ _ _ => exact hcached
  | invalid _ hcand _ =>
      have hleft := hcoh.refusal env hH hcand
      exact hcached.congr hleft.heightFiles (by rw [hleft.only])
  | failed _ _ hvalid _ _ hact => exact hcached.failed hvalid hact
  | switched _ hcand hvalid _ _ hact =>
      exact hcached.switched (Forest.PathTo.nodup hcand.linked)
        (Forest.PathTo.ne_nil hcand.linked) hvalid hact

/-! ## Openings -/

/-- Only files of active heights are restored. -/
theorem restoreHeightFiles_height {k : Nat} : ∀ (ids : List Hash512) (h : Nat) {st : BlockStore}
    {b : Block}, (restoreHeightFiles env st h ids).1.load k = some b →
      k < h + ids.length ∨ st.load k = some b
  | [], _, _, _, hb => Or.inr hb
  | id :: rest, h, st, b, hb => by
      have hlen : h + (id :: rest).length = h + 1 + rest.length := by
        rw [List.length_cons]
        omega
      rw [hlen]
      rw [restoreHeightFiles] at hb
      split at hb
      · exact restoreHeightFiles_height rest (h + 1) hb
      · split at hb
        · exact restoreHeightFiles_height rest (h + 1) hb
        · simp only [BlockStore.store] at hb
          split at hb
          · next heq =>
              split at heq
              · cases heq
              · cases heq
                exact restoreHeightFiles_height rest (h + 1) hb
          · next heq =>
              split at heq
              · cases heq
                rcases restoreHeightFiles_height rest (h + 1) hb with hlt | hold
                · exact Or.inl hlt
                · simp only [BlockStore.load, FinMap.lookup_insert_ite] at hold
                  split at hold
                  · left
                    omega
                  · exact Or.inr hold
              · cases heq

theorem openDir_empty_timed (hg : (Block.createGenesis c p).header ∈ H)
    (h : openDir c p env .empty = some s) : s.Timed := by
  obtain ⟨f, hf, hframe, hcoh, -⟩ := openDir_empty hg h
  have hstate : Frame (rebuildKnownBlockState p env f)
      (loadState c env (rebuildKnownBlockState p env f)) := frame_loadState
  have hspec : Rebuilt p f (rebuildKnownBlockState p env f) := rebuild_spec hf.active
  generalize loadState c env (rebuildKnownBlockState p env f) = t at hframe hstate
  have hmap : t.heightMap.length = 1 := by
    rw [hstate.only, hspec.only, hf.heightMap, List.length_singleton]
  have hload : ∀ {k b}, t.store.load k = some b → k = 0 := by
    intro k b hb
    rw [hstate.only, hspec.only] at hb
    exact (hf.heightFiles hb).1
  have hfiles : ∀ {k b}, s.store.load k = some b → k = 0 := by
    intro k b hb
    rw [hframe.store] at hb
    unfold repairHeightFilesIfNeeded at hb
    have hrestored : ∀ {k b}, (restoreHeightFiles env t.store 0 t.heightMap).1.load k = some b →
        k = 0 := by
      intro k b hb
      rcases restoreHeightFiles_height t.heightMap 0 hb with hlt | hold
      · omega
      · exact hload hold
    generalize restoreHeightFiles env t.store 0 t.heightMap = res at hb hrestored
    obtain ⟨store, repaired⟩ := res
    simp only at hb
    split at hb
    · exact hrestored hb
    · exact hrestored (BlockStore.prune_load_sub store hb)
  constructor
  · intro k b hb
    rw [hfiles hb]
    exact Nat.zero_le _
  · intro hpos
    have hbest := hcoh.best
    have hlen : s.heightMap.length = 1 := by
      rw [hframe.heightMap]
      unfold repairHeightFilesIfNeeded
      generalize restoreHeightFiles env t.store 0 t.heightMap = res
      obtain ⟨store, repaired⟩ := res
      simp only
      split <;> exact hmap
    omega

theorem openDir_timed (hH : CollisionFree c H) {dir : DataDir} (hdir : CanOpen c p H env dir)
    (hold : ∀ k b, dir.store.load k = some b → k ≤ b.header.timestamp.toNat)
    (h : openDir c p env dir = some s) : s.Timed := by
  by_cases hempty : dir = DataDir.empty
  · rw [hempty] at h hdir
    obtain ⟨⟨-, hg⟩ | ⟨ids, entries, hstored⟩, -⟩ := hdir
    · exact openDir_empty_timed hg h
    · cases hstored.index
  · obtain ⟨hboot, hw⟩ := hdir
    have hw' : AllWritable env := hw.resolve_left hempty
    obtain ⟨ids, entries, hstored⟩ := hboot.resolve_left fun hnew => hempty hnew.1
    have hordered := openDir_ordered hH hw' hboot h
    obtain ⟨t, -, -, hload, -⟩ := openDir_files hH hw' hstored h
    constructor
    · intro k b hb
      rw [hload k, keptStore] at hb
      split at hb
      · exact hold k b hb
      · exact hold k b (BlockStore.prune_load_sub dir.store hb)
    · intro _
      obtain ⟨b, hb, -⟩ := hordered.described.complete hordered.coherent.heightMap_best
      exact ⟨b, hb⟩

/-! ## Runs -/

/-- Runs that start from nothing. -/
def Rules.fresh (c : Crypto) (p : ChainParams) (H : Set BlockHeader) : Rules where
  start := fun dir => dir = DataDir.empty
  opens := CanOpen c p H
  pass := fun _ _ _ _ => True

theorem Reachable.timed (hH : CollisionFree c H) (h : Reachable c p H (Rules.fresh c p H) s) :
    s.Coherent c p H ∧ s.Timed := by
  refine h.invariant (I := fun t => t.Coherent c p H ∧ t.Timed) ?_ ?_ ?_ ?_ ?_
  · rintro env dir t rfl hopens ht
    refine ⟨openDir_coherent hH hopens ht, openDir_timed hH hopens (fun k b hb => ?_) ht⟩
    cases hb
  · rintro env skip t blk ⟨hcoh, ht⟩ hb -
    exact ⟨hcoh.acceptOne hH hb, ht.acceptOne hH hcoh hb⟩
  · rintro t id blk ⟨hcoh, -⟩ hb
    exact hcoh.pool_mem hb
  · rintro t t' ⟨hcoh, ht⟩ hop
    obtain ⟨hframe, -⟩ := hop.frame hcoh
    exact ⟨hcoh.operated hop, ht.congr (by rw [hframe.store]) (by rw [hframe.only])⟩
  · rintro env t t' ⟨-, ht⟩ hopens ht'
    exact ⟨openDir_coherent hH hopens ht', openDir_timed hH hopens ht.file ht'⟩

/-- A block that is younger than the tip has a height of 32 bits. -/
theorem Timed.height_lt (h : s.Timed) {timestamp : UInt32}
    (hyounger : ∀ hdr, s.tipHeader = some hdr → hdr.timestamp < timestamp) :
    s.bestHeight + 1 < 2 ^ 32 := by
  by_cases hpos : 0 < s.bestHeight
  · obtain ⟨b, hb⟩ := h.tip hpos
    have hle := h.file _ b hb
    have hlt := UInt32.lt_iff_toNat_lt.mp (hyounger b.header (by
      rw [tipHeader, getBlock, hb, Option.map_some]))
    have := timestamp.toNat_lt
    omega
  · omega

end Blockchain

end Cryptex
