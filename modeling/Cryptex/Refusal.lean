import Cryptex.Switch

/-!
# What refusing a candidate leaves

A block whose path is invalid is purged with everything that waits for it,
and the maps are recomputed from the headers that are left. Afterwards the
connected ids are those that were connected before without the block, and
each of them has work, height and an entry of the height index, whether it
had them before or not.
-/

namespace Cryptex

open Forest

namespace Blockchain

variable {c : Crypto} {p : ChainParams} {env : Env} {skip : Bool} {H : Set BlockHeader}
  {s s' : Blockchain} {blk : Block}

/-- A block that is refused because its path is invalid. -/
structure Refuses (c : Crypto) (p : ChainParams) (env : Env) (skip : Bool) (s : Blockchain)
    (blk : Block) (path : List Hash512) : Prop where
  check : s.statelessCheck c p env skip blk = none
  candidate : Candidate c (s.cacheBlock c env blk) blk path
  invalid : ¬ (s.cacheBlock c env blk).PathValid c p env skip path

/-- The state after the refusal of the block with the id `root`. -/
structure Refusal (c : Crypto) (p : ChainParams) (H : Set BlockHeader) (s : Blockchain)
    (root : Hash512) (s' : Blockchain) : Prop where
  only : s' = { s with
    store := s'.store
    files := s'.files
    index := s'.index
    linkIndex := s'.linkIndex
    blockPool := s'.blockPool
    chainWork := s'.chainWork
    blockHeight := s'.blockHeight
    heightIndex := s'.heightIndex
    children := s'.children }
  indexOk : s'.IndexOk c H
  pathTo : ∀ {id l}, s'.PathTo id l ↔ s.PathTo id l ∧ root ∉ l
  index : ∀ {id hdr}, s'.index.lookup id = some hdr → s.index.lookup id = some hdr
  chainWork : ∀ {id w}, s'.chainWork.lookup id = some w ↔
    ∃ l, s.PathTo id l ∧ root ∉ l ∧ w = s.pathWork p l
  heightIndex : ∀ {id h}, s'.heightIndex.lookup id = some h ↔ s.heightMap[h]? = some id ∨
    ∃ l, s.PathTo id l ∧ root ∉ l ∧ 1 < l.length ∧ l.length = h + 1
  pool : ∀ {id l b}, s.PathTo id l → root ∉ l →
    (s'.blockPool.lookup id = some b ↔ s.blockPool.lookup id = some b)
  poolSub : ∀ {id b}, s'.blockPool.lookup id = some b → s.blockPool.lookup id = some b
  heightFiles : s'.store.heightFiles = s.store.heightFiles
  hashFiles : ∀ {id l}, s.PathTo id l → root ∉ l →
    s'.store.loadByHash id = s.store.loadByHash id
  hashSub : ∀ {id b}, s'.store.hashFiles.lookup id = some b → s.store.hashFiles.lookup id = some b
  hashKnown : ∀ {id b hdr}, s'.store.hashFiles.lookup id = some b →
    s.index.lookup id = some hdr → s'.index.lookup id = some hdr

/-- A path is free of purged ids when it does not run through the root. -/
theorem disjoint_purgeList_iff (hH : CollisionFree c H) (hs : s.Coherent c p H) {root : Hash512}
    {id : Hash512} {l : List Hash512} (hl : s.PathTo id l) :
    (∀ j ∈ l, j ∉ s.purgeList c root) ↔ root ∉ l := by
  constructor
  · intro h hroot
    exact h root hroot (mem_purgeList_root s c root)
  · intro hroot j hj hmem
    obtain ⟨i, hi⟩ := List.mem_iff_getElem?.mp hj
    have hlj : s.PathTo j (l.take (i + 1)) := Forest.PathTo.take hl hi
    exact hroot (List.mem_of_mem_take (purgeList_behind hH hs j hmem _ hlj))

theorem PurgedCandidate.refusal (hH : CollisionFree c H) (hs : s.Coherent c p H)
    {root : Hash512} (hfresh : s.chainWork.lookup root = none)
    (h : PurgedCandidate c p H root s s') : Refusal c p H s root s' := by
  obtain ⟨mid, rebuilt, files, hmid, hrebuilt, rfl⟩ := h.steps
  -- what has a height has work, and what has work is not purged
  have hheight : ∀ {j}, (∃ k, s.heightIndex.lookup j = some k) → j ∉ s.purgeList c root := by
    rintro j ⟨k, hk⟩
    obtain ⟨l, w, hl, -, hw⟩ := hs.heightIndex hk
    exact purge_keeps_credited hH hs hfresh hw hl j (Forest.PathTo.mem_self hl)
  have hkept : ∀ {j}, (j ∈ s.purgeList c root → ∃ k, s.heightIndex.lookup j = some k) ↔
      j ∉ s.purgeList c root := by
    intro j
    constructor
    · intro himp hmem
      exact hheight (himp hmem) hmem
    · intro hnot hmem
      exact absurd hmem hnot
  have hindex : ∀ {id hdr}, mid.index.lookup id = some hdr ↔
      s.index.lookup id = some hdr ∧ id ∉ s.purgeList c root := by
    intro id hdr
    rw [hmid.index, hkept]
  have hpath : ∀ {id l}, mid.PathTo id l ↔ s.PathTo id l ∧ root ∉ l := by
    intro id l
    constructor
    · intro hl
      have hl' : s.PathTo id l := hmid.pathTo_inv hs.index hl
      refine ⟨hl', (disjoint_purgeList_iff hH hs hl').mp fun j hj => ?_⟩
      obtain ⟨hdr, hhdr⟩ := PathTo.lookup hl hj
      exact (hindex.mp hhdr).2
    · rintro ⟨hl, hroot⟩
      exact hmid.pathTo hs.index hl fun j hj hmem =>
        absurd hmem ((disjoint_purgeList_iff hH hs hl).mpr hroot j hj)
  have hself : ∀ {id l}, s.PathTo id l → root ∉ l → id ∉ s.purgeList c root := fun hl hroot =>
    (disjoint_purgeList_iff hH hs hl).mpr hroot _ (Forest.PathTo.mem_self hl)
  have hwork : ∀ {id l}, mid.PathTo id l → mid.pathWork p l = s.pathWork p l :=
    fun hl => hmid.pathWork hl
  have hup : rebuilt.up = mid.up := by rw [hrebuilt.only]; rfl
  have hpathR : ∀ {id l}, Blockchain.PathTo { rebuilt with files := files } id l ↔
      s.PathTo id l ∧ root ∉ l := by
    intro id l
    rw [← hpath]
    show Forest.PathTo rebuilt.up id l ↔ Forest.PathTo mid.up id l
    rw [hup]
  have hstore : rebuilt.store = mid.store := by rw [hrebuilt.only]
  have hpoolR : rebuilt.blockPool = mid.blockPool := by rw [hrebuilt.only]
  refine
    { only := ?_
      indexOk := hmid.indexOk.congr (by rw [hrebuilt.only]) (by rw [hrebuilt.only])
        (by rw [hrebuilt.only])
      pathTo := hpathR
      index := ?_
      chainWork := ?_
      heightIndex := ?_
      pool := ?_
      poolSub := ?_
      heightFiles := ?_
      hashFiles := ?_
      hashSub := ?_
      hashKnown := ?_ }
  · rw [hrebuilt.only, hmid.only]
  · intro id hdr hid
    have hid' : rebuilt.index.lookup id = some hdr := hid
    rw [hrebuilt.only] at hid'
    exact (hindex.mp hid').1
  · intro id w
    show rebuilt.chainWork.lookup id = some w ↔ _
    rw [hrebuilt.chainWork]
    constructor
    · rintro ⟨l, hl, rfl⟩
      exact ⟨l, (hpath.mp hl).1, (hpath.mp hl).2, hwork hl⟩
    · rintro ⟨l, hl, hroot, rfl⟩
      exact ⟨l, hpath.mpr ⟨hl, hroot⟩, (hwork (hpath.mpr ⟨hl, hroot⟩)).symm⟩
  · intro id k
    show rebuilt.heightIndex.lookup id = some k ↔ _
    rw [hrebuilt.heightIndex, hmid.heightMap]
    refine or_congr_right ⟨?_, ?_⟩
    · rintro ⟨l, hl, hlen⟩
      exact ⟨l, (hpath.mp hl).1, (hpath.mp hl).2, hlen⟩
    · rintro ⟨l, hl, hroot, hlen⟩
      exact ⟨l, hpath.mpr ⟨hl, hroot⟩, hlen⟩
  · intro id l b hl hroot
    show rebuilt.blockPool.lookup id = some b ↔ _
    rw [hpoolR, hmid.pool, hkept]
    exact and_iff_left (hself hl hroot)
  · intro id b hb
    have hb' : rebuilt.blockPool.lookup id = some b := hb
    rw [hpoolR] at hb'
    exact (hmid.pool.mp hb').1
  · show rebuilt.store.heightFiles = _
    rw [hstore, hmid.heightFiles]
  · intro id l hl hroot
    show rebuilt.store.hashFiles.lookup id = s.store.hashFiles.lookup id
    rw [hstore]
    refine Option.ext fun b => ?_
    rw [hmid.hashFiles, hkept]
    exact and_iff_left (hself hl hroot)
  · intro id b hb
    have hb' : rebuilt.store.hashFiles.lookup id = some b := hb
    rw [hstore] at hb'
    exact (hmid.hashFiles.mp hb').1
  · intro id b hdr hb hhdr
    have hb' : rebuilt.store.hashFiles.lookup id = some b := hb
    rw [hstore] at hb'
    show rebuilt.index.lookup id = some hdr
    rw [hrebuilt.only]
    exact hmid.index.mpr ⟨hhdr, (hmid.hashFiles.mp hb').2⟩

/-- What the refusal of a candidate comes to. -/
theorem Coherent.refusal (env : Env) (hH : CollisionFree c H) (hs : s.Coherent c p H)
    {path : List Hash512} (hcand : Candidate c s blk path) :
    Refusal c p H s (blk.header.powHash c)
      (purgeCachedSubtree p env c s (blk.header.powHash c)) :=
  (hs.purge env hH hcand).refusal hH hs hcand.fresh

/-- A pass that refuses its block ends there, and no other does. -/
theorem Outcome.refused_iff (hH : CollisionFree c H) (hs : s.IndexOk c H) (hb : blk.header ∈ H)
    {v : Verdict} (h : Outcome c p env skip s blk v s') :
    v = .candidateInvalid ↔ ∃ path, s.Refuses c p env skip blk path := by
  have hnone : ∀ {path path'}, Candidate c (s.cacheBlock c env blk) blk path →
      (s.cacheBlock c env blk).PathValid c p env skip path →
      ¬ s.Refuses c p env skip blk path' := by
    intro path path' hcand hvalid href
    rw [hcand.linked.unique href.candidate.linked] at hvalid
    exact href.invalid hvalid
  cases h with
  | rejected hcheck hv =>
      refine iff_of_false ?_ ?_
      · rintro rfl
        unfold statelessCheck at hcheck
        repeat' split at hcheck
        all_goals cases hcheck
      · rintro ⟨path, href⟩
        rw [href.check] at hcheck
        cases hcheck
  | processed _ hw =>
      refine iff_of_false (by simp) ?_
      rintro ⟨path, href⟩
      have hfresh : s.chainWork.lookup (blk.header.powHash c) = none := href.candidate.fresh
      rw [hw] at hfresh
      cases hfresh
  | orphan _ _ hprev hparent =>
      refine iff_of_false (by simp) ?_
      rintro ⟨path, href⟩
      obtain ⟨parent, w, hlink, hw⟩ := href.candidate.parent_credited hH hs hb hprev
      rw [hparent parent hlink] at hw
      cases hw
  | invalid hcheck hcand hinvalid => exact iff_of_true rfl ⟨_, hcheck, hcand, hinvalid⟩
  | side _ hcand hvalid _ =>
      refine iff_of_false (by simp) ?_
      rintro ⟨path, href⟩
      exact hnone hcand hvalid href
  | refused _ hcand hvalid _ _ hv =>
      refine iff_of_false (by rcases hv with rfl | rfl <;> simp) ?_
      rintro ⟨path, href⟩
      exact hnone hcand hvalid href
  | failed _ hcand hvalid _ _ _ =>
      refine iff_of_false (by simp) ?_
      rintro ⟨path, href⟩
      exact hnone hcand hvalid href
  | switched _ hcand hvalid _ _ _ =>
      refine iff_of_false (by simp) ?_
      rintro ⟨path, href⟩
      exact hnone hcand hvalid href

end Blockchain

end Cryptex
