import Cryptex.Refusal
import Cryptex.Reloading

/-!
# Ending the process and opening its directory again

As long as every write succeeds the files describe the state (`Described`),
whatever blocks are delivered, so that the directory of a running node can
be opened again at any time.
-/

namespace Cryptex

open Forest

namespace Blockchain

variable {c : Crypto} {p : ChainParams} {env : Env} {skip : Bool} {H : Set BlockHeader}
  {R R' : Rules} {s s' : Blockchain} {blk : Block}

/-! ## Passes -/

/-- The chain and its files are the same, no header is lost and every by-hash
file has its own block. -/
theorem Described.grow (hd : s.Described c) (hindex : s'.files.index = s.files.index)
    (hheaders : s'.files.headers = s.files.headers) (hmap : s'.heightMap = s.heightMap)
    (hknown : ∀ {id hdr}, s.index.lookup id = some hdr → s'.index.lookup id = some hdr)
    (hheight : s'.store.heightFiles = s.store.heightFiles)
    (hhash : ∀ {id b}, s'.store.hashFiles.lookup id = some b → b.header.powHash c = id) :
    s'.Described c := by
  obtain ⟨entries, hfile, hnd, hsub, hactive⟩ := hd.headers
  refine ⟨by rw [hindex, hmap]; exact hd.index, ⟨entries, hheaders.trans hfile, hnd,
    fun e he => hknown (hsub e he), by rw [hmap]; exact hactive⟩, fun hi => ?_, hhash⟩
  rw [hmap] at hi
  rw [hheight]
  exact hd.complete hi

theorem Described.cacheBlock (hH : CollisionFree c H) (hs : s.Coherent c p H)
    (hb : blk.header ∈ H) (hd : s.Described c) : (s.cacheBlock c env blk).Described c := by
  refine hd.grow rfl rfl rfl (fun hid => cacheBlock_lookup_mono hH hs.index hb hid) ?_ ?_
  · exact BlockStore.storeByHash_heightFiles _ _ _ _
  · intro id b hfile
    have hfile' : (s.store.storeByHash env.canWrite (blk.header.powHash c) blk).1.hashFiles.lookup id
        = some b := hfile
    rw [BlockStore.storeByHash] at hfile'
    split at hfile'
    · rw [FinMap.lookup_insert_ite] at hfile'
      split at hfile'
      · next heq =>
          cases hfile'
          exact heq.symm
      · exact hd.hashFiles hfile'
    · exact hd.hashFiles hfile'

/-- The files that a refusal writes. -/
theorem Coherent.purge_files (hw : AllWritable env) (hH : CollisionFree c H)
    (hs : s.Coherent c p H) {path : List Hash512} (hcand : Candidate c s blk path) :
    (purgeCachedSubtree p env c s (blk.header.powHash c)).files.index = s.files.index ∧
      (purgeCachedSubtree p env c s (blk.header.powHash c)).files.headers
        = some (env.visitOrder.visit
          (purgeCachedSubtree p env c s (blk.header.powHash c)).index) := by
  obtain ⟨hdr, hhdr⟩ := PathTo.lookup hcand.linked (Forest.PathTo.mem_self hcand.linked)
  have hmutated : ((s.purgeList c (blk.header.powHash c)).foldl (purgeOne c) (false, s)).1 = true :=
    purgeFold_mutated (mem_purgeList_root s c _) hhdr (hs.heightIndex_none hcand.fresh)
  have hpurged : Purged c H (s.purgeList c (blk.header.powHash c)) s
      ((s.purgeList c (blk.header.powHash c)).foldl (purgeOne c) (false, s)).2 :=
    (Purged.refl hs.index).foldl hH _ false
  rw [purgeCachedSubtree]
  generalize (s.purgeList c (blk.header.powHash c)).foldl (purgeOne c) (false, s) = res
    at hmutated hpurged
  obtain ⟨mutated, mid⟩ := res
  simp only at hmutated hpurged ⊢
  rw [if_pos hmutated, persistHeaders, if_pos (hw _)]
  have honly := rebuildKnownBlockState_only p env mid
  refine ⟨?_, rfl⟩
  rw [honly, hpurged.only]

theorem Described.acceptOne (hw : AllWritable env) (hH : CollisionFree c H) (hs : s.Coherent c p H)
    (hb : blk.header ∈ H) (hd : s.Described c) :
    (s.acceptOne c p env skip blk).2.Described c := by
  have hcoh : (s.cacheBlock c env blk).Coherent c p H := hs.cacheBlock hH hb
  have hcached : (s.cacheBlock c env blk).Described c := hd.cacheBlock hH hs hb
  have hout : Outcome c p env skip s blk (s.acceptOne c p env skip blk).1
      (s.acceptOne c p env skip blk).2 := acceptOne_outcome hH hs hb
  generalize s.acceptOne c p env skip blk = res at hout
  obtain ⟨v, s'⟩ := res
  simp only at hout ⊢
  cases hout with
  | rejected _ _ => exact hd
  | processed _ _ => exact hcached
  | refused _ _ _ _ _ _ => exact hcached
  | orphan _ _ _ _ => exact hcached.grow rfl rfl rfl id rfl hcached.hashFiles
  | side _ _ _ _ => exact hcached.grow rfl rfl rfl id rfl hcached.hashFiles
  | failed _ hcand hvalid _ _ hact =>
      exact absurd (fun i id _ => ⟨hw _, hw _⟩) (failed_held hcand hvalid hact).1
  | invalid _ hcand _ =>
      have hleft := hcoh.refusal env hH hcand
      obtain ⟨hindex, hheaders⟩ := hcoh.purge_files hw hH hcand
      have hfresh : s.chainWork.lookup (blk.header.powHash c) = none := hcand.fresh
      generalize purgeCachedSubtree p env c (s.cacheBlock c env blk) (blk.header.powHash c) = s'
        at hleft hindex hheaders ⊢
      have hmap : s'.heightMap = s.heightMap := by rw [hleft.only]; rfl
      -- the refused block has no work, so it is not on the active chain
      have hactive : s'.PathTo s.tipHash s.heightMap := by
        refine hleft.pathTo.mpr ⟨hcoh.active, fun hmem => ?_⟩
        obtain ⟨w, hw'⟩ := hs.activeWork hmem
        rw [hfresh] at hw'
        cases hw'
      refine ⟨by rw [hindex, hmap]; exact hcached.index, ⟨_, hheaders, env.visitOrder.nodup_keys _,
        fun e he => (env.visitOrder.mem_visit _ _ _).mp he, fun id hid => ?_⟩, fun {i id} hi => ?_,
        fun hfile => hcached.hashFiles (hleft.hashSub hfile)⟩
      · rw [hmap] at hid
        obtain ⟨hdr, hhdr⟩ := PathTo.lookup hactive hid
        exact ⟨hdr, (env.visitOrder.mem_visit _ _ _).mpr hhdr⟩
      · rw [hmap] at hi
        rw [hleft.heightFiles]
        exact hcached.complete hi
  | @switched path _ _ hcand hvalid _ hallowed hact =>
      obtain ⟨hcoh', blocks, -, -, -, hblocks, hheaders, -⟩ :=
        hcoh.switch hH hcand (cacheBlock_pool_self s blk) hvalid hallowed.1 hact
      obtain ⟨hfindex, hfheaders, -⟩ := activatePath_files hw hact
      have hdone := activatePath_activated (Forest.PathTo.nodup hcand.linked) hblocks hact
      have hheader : ∀ {id b}, (id, b) ∈ path.zip blocks → b.header.powHash c = id := fun he =>
        hcoh.index.id_eq ((List.forall₂_iff_zip.mp hheaders).2 he)
      have hmap : s'.heightMap = path := by rw [hdone.only]; rfl
      refine ⟨hfindex, ⟨_, hfheaders, env.visitOrder.nodup_keys _,
        fun e he => (env.visitOrder.mem_visit _ _ _).mp he, fun id hid => ?_⟩, fun {i id} hi => ?_,
        fun {id b} hfile => ?_⟩
      · obtain ⟨hdr, hhdr⟩ := PathTo.lookup hcoh'.active hid
        exact ⟨hdr, (env.visitOrder.mem_visit _ _ _).mpr hhdr⟩
      · rw [hmap] at hi
        have hlt := (List.getElem?_eq_some_iff.mp hi).1
        have hb := List.getElem?_eq_getElem (show i < blocks.length by
          have := hblocks.length_eq
          omega)
        exact ⟨_, (hdone.load hlt).trans hb, hheader (List.mem_of_getElem?
          (List.getElem?_zip_eq_some (z := (_, _)) |>.mpr ⟨hi, hb⟩))⟩
      · rcases hdone.hashSub hfile with he | hold
        · exact hheader he
        · exact hcached.hashFiles hold

/-! ## Runs -/

/-- Runs in which every write succeeds. -/
def Rules.writable (c : Crypto) (p : ChainParams) (H : Set BlockHeader) : Rules where
  start := fun _ => True
  opens := fun env dir => Bootable c p H dir ∧ AllWritable env
  pass := fun env _ _ _ => AllWritable env

theorem Delivered.mono {pass pass' : Env → Bool → Blockchain → Block → Prop}
    (hpass : ∀ env skip s blk, pass env skip s blk → pass' env skip s blk)
    (h : Delivered c p H pass s s') : Delivered c p H pass' s s' := by
  obtain ⟨env, skip, fuel, blk, r, hb, hok, hacc⟩ := h
  exact .call env skip fuel blk r hb (fun x hx => hpass _ _ _ _ (hok x hx)) hacc

/-- A run is a run under weaker conditions. -/
theorem Reachable.mono (hstart : ∀ dir, R.start dir → R'.start dir)
    (hopens : ∀ env dir, R.opens env dir → R'.opens env dir)
    (hpass : ∀ env skip s blk, R.pass env skip s blk → R'.pass env skip s blk)
    (h : Reachable c p H R s) : Reachable c p H R' s := by
  induction h with
  | opened hs ho hopen => exact .opened (hstart _ hs) (hopens _ _ ho) hopen
  | delivered _ hstep ih => exact ih.delivered (hstep.mono hpass)
  | operated _ hop ih => exact ih.operated hop
  | reopened _ ho hopen ih => exact ih.reopened (hopens _ _ ho) hopen

/-- The files describe the state at any time. -/
theorem Reachable.described (hH : CollisionFree c H)
    (h : Reachable c p H (Rules.writable c p H) s) : s.Coherent c p H ∧ s.Described c := by
  have hopen : ∀ env dir s, (Rules.writable c p H).opens env dir →
      openDir c p env dir = some s → s.Coherent c p H ∧ s.Described c := by
    rintro env dir s ⟨hboot, hw⟩ hs
    have hordered := openDir_ordered hH hw hboot hs
    exact ⟨hordered.coherent, hordered.described⟩
  refine h.invariant (I := fun t => t.Coherent c p H ∧ t.Described c)
    (fun env dir s _ => hopen env dir s) ?_ ?_ ?_ (fun env t t' _ => hopen env t.dataDir t')
  · rintro env skip t blk ⟨ht, hd⟩ hb hw
    exact ⟨ht.acceptOne hH hb, hd.acceptOne hw hH ht hb⟩
  · rintro t id blk ⟨ht, -⟩ hb
    exact ht.pool_mem hb
  · rintro t t' ⟨ht, hd⟩ hop
    exact ⟨ht.operated hop, (hop.frame ht).1.described hd⟩

theorem Reachable.bootable (hH : CollisionFree c H)
    (h : Reachable c p H (Rules.writable c p H) s) : Bootable c p H s.dataDir := by
  obtain ⟨hcoh, hd⟩ := h.described hH
  obtain ⟨entries, hstored⟩ := hd.storedChain hH hcoh
  exact Or.inr ⟨_, entries, hstored⟩

theorem Reachable.any_of_writable (h : Reachable c p H (Rules.writable c p H) s) :
    Reachable c p H (Rules.any c p H) s := by
  refine Reachable.mono (R := .writable c p H) (fun _ hs => hs) ?_ (fun _ _ _ _ _ => trivial) h
  rintro env dir ⟨hboot, hw⟩
  exact ⟨hboot, Or.inr hw⟩

end Blockchain

end Cryptex
