import Cryptex.Activation

/-!
# Purging an invalid block

`purge_cached_subtree` forgets the ids it visits, save those with an entry
in the height index, and recomputes the known block state. The active chain
has such entries, so it stays.
-/

namespace Cryptex

open Forest

namespace Blockchain

variable {c : Crypto} {p : ChainParams} {env : Env} {skip : Bool} {H : Set BlockHeader}
  {s s' : Blockchain}

/-! ## Forgetting a list of ids -/

/-- What is left of a state after a list of ids has been forgotten, save
those with a height. -/
structure Purged (c : Crypto) (H : Set BlockHeader) (ids : List Hash512) (s s' : Blockchain) :
    Prop where
  only : s' = { s with
    linkIndex := s'.linkIndex
    index := s'.index
    blockPool := s'.blockPool
    chainWork := s'.chainWork
    blockHeight := s'.blockHeight
    store := s'.store }
  indexOk : s'.IndexOk c H
  index : ∀ {id hdr}, s'.index.lookup id = some hdr ↔
    s.index.lookup id = some hdr ∧ (id ∈ ids → ∃ h, s.heightIndex.lookup id = some h)
  pool : ∀ {id b}, s'.blockPool.lookup id = some b ↔
    s.blockPool.lookup id = some b ∧ (id ∈ ids → ∃ h, s.heightIndex.lookup id = some h)
  heightFiles : s'.store.heightFiles = s.store.heightFiles
  hashFiles : ∀ {id b}, s'.store.hashFiles.lookup id = some b ↔
    s.store.hashFiles.lookup id = some b ∧ (id ∈ ids → ∃ h, s.heightIndex.lookup id = some h)

theorem Purged.heightIndex {ids : List Hash512} (h : Purged c H ids s s') :
    s'.heightIndex = s.heightIndex := by rw [h.only]

theorem Purged.heightMap {ids : List Hash512} (h : Purged c H ids s s') :
    s'.heightMap = s.heightMap := by rw [h.only]

theorem Purged.refl (hs : s.IndexOk c H) : Purged c H [] s s :=
  ⟨rfl, hs, by simp, by simp, rfl, by simp⟩

theorem lookup_erase_iff {K V : Type*} [DecidableEq K] {m : FinMap K V} {k j : K} {v : V} :
    (m.erase k).lookup j = some v ↔ j ≠ k ∧ m.lookup j = some v := by
  rw [FinMap.lookup_erase_ite]
  split
  · next heq => simp [heq]
  · next hne => simp [hne]

/-- One more id. -/
theorem Purged.snoc (hH : CollisionFree c H) {ids : List Hash512} (h : Purged c H ids s s')
    (b : Bool) (id : Hash512) : Purged c H (ids ++ [id]) s (purgeOne c (b, s') id).2 := by
  rw [purgeOne]
  simp only
  by_cases hheight : (s'.heightIndex.lookup id).isSome = true
  · rw [if_pos hheight]
    obtain ⟨k, hk⟩ := Option.isSome_iff_exists.mp hheight
    rw [h.heightIndex] at hk
    have hsplit : ∀ {j : Hash512}, (j ∈ ids ++ [id] → ∃ h, s.heightIndex.lookup j = some h) ↔
        (j ∈ ids → ∃ h, s.heightIndex.lookup j = some h) := by
      intro j
      constructor
      · intro hj hmem
        exact hj (List.mem_append_left _ hmem)
      · intro hj hmem
        rcases List.mem_append.mp hmem with hmem | hmem
        · exact hj hmem
        · rw [List.mem_singleton.mp hmem]
          exact ⟨k, hk⟩
    refine ⟨h.only, h.indexOk, ?_, ?_, h.heightFiles, ?_⟩
    · intro j hdr; rw [hsplit]; exact h.index
    · intro j blk; rw [hsplit]; exact h.pool
    · intro j blk; rw [hsplit]; exact h.hashFiles
  · rw [if_neg hheight]
    have hnone : s.heightIndex.lookup id = none := by
      rw [h.heightIndex] at hheight
      simpa using hheight
    have hsplit : ∀ {j : Hash512}, (j ∈ ids ++ [id] → ∃ h, s.heightIndex.lookup j = some h) ↔
        j ≠ id ∧ (j ∈ ids → ∃ h, s.heightIndex.lookup j = some h) := by
      intro j
      constructor
      · intro hj
        refine ⟨?_, fun hmem => hj (List.mem_append_left _ hmem)⟩
        rintro rfl
        obtain ⟨k, hk⟩ := hj (by simp)
        rw [hnone] at hk
        cases hk
      · rintro ⟨hne, hj⟩ hmem
        rcases List.mem_append.mp hmem with hmem | hmem
        · exact hj hmem
        · exact absurd (List.mem_singleton.mp hmem) hne
    refine ⟨?_, h.indexOk.erase hH rfl rfl rfl, ?_, ?_, h.heightFiles, ?_⟩
    · rw [h.only]
    · intro j hdr
      rw [hsplit]
      simp only [lookup_erase_iff, h.index]
      tauto
    · intro j blk
      rw [hsplit]
      simp only [lookup_erase_iff, h.pool]
      tauto
    · intro j blk
      rw [hsplit]
      simp only [BlockStore.removeByHash, lookup_erase_iff, h.hashFiles]
      tauto

theorem Purged.foldl (hH : CollisionFree c H) {ids : List Hash512} (h : Purged c H ids s s') :
    ∀ (rest : List Hash512) (b : Bool),
      Purged c H (ids ++ rest) s (rest.foldl (purgeOne c) (b, s')).2 := by
  intro rest
  induction rest generalizing ids s' with
  | nil => intro b; rw [List.append_nil]; exact h
  | cons id rest ih =>
      intro b
      rw [List.foldl_cons, ← List.singleton_append, ← List.append_assoc]
      exact ih (h.snoc hH b id) (purgeOne c (b, s') id).1

/-- The flag is set once, and stays. -/
theorem purgeOne_mutated {acc : Bool × Blockchain} (h : acc.1 = true) (rest : List Hash512) :
    (rest.foldl (purgeOne c) acc).1 = true := by
  induction rest generalizing acc with
  | nil => exact h
  | cons id rest ih =>
      rw [List.foldl_cons]
      refine ih ?_
      rw [purgeOne]
      split
      · exact h
      · simp [h]

/-- A known id without a height sets the flag. -/
theorem purgeFold_mutated {root : Hash512} {hdr : BlockHeader} {ids : List Hash512}
    (hmem : root ∈ ids) (hidx : s.index.lookup root = some hdr)
    (hheight : s.heightIndex.lookup root = none) :
    (ids.foldl (purgeOne c) (false, s)).1 = true := by
  induction ids generalizing s with
  | nil => cases hmem
  | cons id rest ih =>
      rw [List.foldl_cons]
      by_cases hid : root = id
      · subst hid
        refine purgeOne_mutated ?_ rest
        rw [purgeOne]
        simp [hidx, hheight]
      · cases hflag : (purgeOne c (false, s) id).1 with
        | true => exact purgeOne_mutated hflag rest
        | false =>
            have hrest : root ∈ rest := by
              rcases List.mem_cons.mp hmem with h | h
              · exact absurd h hid
              · exact h
            have heq : purgeOne c (false, s) id = (false, (purgeOne c (false, s) id).2) :=
              Prod.ext hflag rfl
            rw [heq]
            refine ih hrest ?_ ?_
            · rw [purgeOne]
              simp only
              split
              · exact hidx
              · simp only [FinMap.lookup_erase_ite, if_neg hid]
                exact hidx
            · rw [purgeOne]
              simp only
              split <;> exact hheight

/-- A path stays when all its ids are kept. -/
theorem Purged.pathTo (hs : s.IndexOk c H) {ids : List Hash512} (h : Purged c H ids s s')
    {id : Hash512} {l : List Hash512} (hl : s.PathTo id l)
    (hkeep : ∀ j ∈ l, j ∈ ids → ∃ h, s.heightIndex.lookup j = some h) : s'.PathTo id l :=
  hs.pathTo h.indexOk hl fun j hj _ hhdr => h.index.mpr ⟨hhdr, hkeep j hj⟩

/-- No path is new. -/
theorem Purged.pathTo_inv (hs : s.IndexOk c H) {ids : List Hash512} (h : Purged c H ids s s')
    {id : Hash512} {l : List Hash512} (hl : s'.PathTo id l) : s.PathTo id l :=
  h.indexOk.pathTo hs hl fun _ _ _ hhdr => (h.index.mp hhdr).1

theorem Purged.pathWork {ids : List Hash512} (h : Purged c H ids s s')
    {id : Hash512} {l : List Hash512} (hl : s'.PathTo id l) :
    s'.pathWork p l = s.pathWork p l := by
  refine pathWork_congr fun j hj => ?_
  obtain ⟨hdr, hhdr⟩ := PathTo.lookup hl hj
  rw [hhdr, (h.index.mp hhdr).1]

/-! ## The purge of a candidate -/

/-- What the purge of a refused candidate leaves: the ids below it are
forgotten, and the known block state is recomputed. -/
structure PurgedCandidate (c : Crypto) (p : ChainParams) (H : Set BlockHeader) (root : Hash512)
    (s s' : Blockchain) : Prop where
  steps : ∃ mid rebuilt files, Purged c H (s.purgeList c root) s mid ∧ Rebuilt p mid rebuilt ∧
    s' = { rebuilt with files := files }

theorem mem_purgeList_root (s : Blockchain) (c : Crypto) (root : Hash512) :
    root ∈ s.purgeList c root := by
  rw [purgeList, purgeFuel, Nat.add_comm, Worklist.explore, if_neg (by simp)]
  exact Worklist.seen_subset_explore (by simp)

theorem kidsOf_ne_nil {s : Blockchain} {c : Crypto} {id : Hash512} (h : s.kidsOf c id ≠ []) :
    id ∈ s.index.keys := by
  rw [kidsOf] at h
  cases hid : s.index.lookup id with
  | none => rw [hid] at h; exact absurd rfl h
  | some hdr => exact Finmap.mem_keys.mpr (Finmap.mem_of_lookup_eq_some hid)

/-- The waiting children of the root are purged with it. -/
theorem mem_purgeList_kid {root k : Hash512} (hk : k ∈ s.kidsOf c root) :
    k ∈ s.purgeList c root := by
  have hfuel : Worklist.roundsLeft (s.kidsOf c) s.index.keys [root] [] ≤ s.purgeFuel c := by
    rw [Worklist.roundsLeft, purgeFuel, List.length_singleton]
    simp
  obtain ⟨hroot, hclosed⟩ := Worklist.explore_closed (fun _ h => kidsOf_ne_nil h) hfuel
    (fun j hj => absurd hj List.not_mem_nil)
  exact hclosed root (hroot root (by simp)) k hk

/-- Without children only the root is purged. -/
theorem purgeList_childless {root : Hash512} (h : s.kidsOf c root = []) :
    s.purgeList c root = [root] := by
  rw [purgeList, purgeFuel, Nat.add_comm, Worklist.explore, if_neg (by simp), h]
  have hnil : ∀ fuel, Worklist.explore (s.kidsOf c) fuel [] [root] = [root] := by
    intro fuel
    cases fuel <;> rfl
  exact hnil _

theorem purgeCachedSubtree_spec (hH : CollisionFree c H) (hs : s.Coherent c p H) {root : Hash512}
    {hdr : BlockHeader} (hroot : s.index.lookup root = some hdr)
    (hheight : s.heightIndex.lookup root = none) :
    PurgedCandidate c p H root s (purgeCachedSubtree p env c s root) := by
  have hpurged : Purged c H (s.purgeList c root) s
      ((s.purgeList c root).foldl (purgeOne c) (false, s)).2 :=
    (Purged.refl hs.index).foldl hH _ false
  have hactive : ((s.purgeList c root).foldl (purgeOne c) (false, s)).2.PathTo s.tipHash
      s.heightMap := by
    refine hpurged.pathTo hs.index hs.active fun j hj _ => ?_
    obtain ⟨i, hi⟩ := List.mem_iff_getElem?.mp hj
    exact ⟨i, hs.activeHeight hi⟩
  -- the root is in the index, so the flag is set
  have hmutated : ((s.purgeList c root).foldl (purgeOne c) (false, s)).1 = true :=
    purgeFold_mutated (mem_purgeList_root s c root) hroot hheight
  rw [purgeCachedSubtree]
  generalize hfold : (s.purgeList c root).foldl (purgeOne c) (false, s) = res
    at hpurged hactive hmutated
  obtain ⟨mutated, mid⟩ := res
  simp only at hpurged hactive hmutated ⊢
  rw [if_pos hmutated]
  obtain ⟨files, hfiles⟩ := persistHeaders_eq env (rebuildKnownBlockState p env mid)
  rw [← hpurged.heightMap] at hactive
  exact ⟨mid, rebuildKnownBlockState p env mid, files, hpurged, rebuild_spec hactive, hfiles⟩

/-- The maps of a rebuilt state are coherent. -/
theorem Rebuilt.coherent {mid : Blockchain} (hmid : mid.IndexOk c H)
    (hstored : (∀ h b, mid.store.heightFiles.lookup h = some b → b.header ∈ H) ∧
      ∀ id b, mid.store.hashFiles.lookup id = some b → b.header ∈ H)
    (hactive : mid.PathTo mid.tipHash mid.heightMap)
    (hbest : mid.bestHeight + 1 = mid.heightMap.length)
    (hbits : ∀ {hdr}, mid.index.lookup mid.tipHash = some hdr → mid.tipBits = hdr.bits)
    (hcp : ∀ {h hash}, mid.localCheckpoint = some (h, hash) → mid.heightMap[h]? = some hash)
    {rebuilt : Blockchain} (h : Rebuilt p mid rebuilt) {files : ChainFiles} :
    Coherent c p H { rebuilt with files := files } := by
  obtain ⟨only, children, chainWork, blockHeight, heightIndex⟩ := h
  have hup : rebuilt.up = mid.up := by rw [only]; rfl
  have hpath : rebuilt.PathTo = mid.PathTo := by rw [PathTo, PathTo, hup]
  have hindex : rebuilt.index = mid.index := by rw [only]
  have hmap : rebuilt.heightMap = mid.heightMap := by rw [only]
  have htip : rebuilt.tipHash = mid.tipHash := by rw [only]
  have hwork : ∀ l, rebuilt.pathWork p l = mid.pathWork p l := by
    intro l; exact pathWork_congr fun _ _ => by rw [hindex]
  have hconn : ∀ {id l}, mid.PathTo id l → ∃ w, rebuilt.chainWork.lookup id = some w :=
    fun hl => ⟨_, chainWork.mpr ⟨_, hl, rfl⟩⟩
  refine
    { index := hmid.congr (by rw [only]) (by rw [only]) (by rw [only])
      stored := by rw [only]; exact hstored
      active := ?_
      best := by rw [only]; exact hbest
      tipBits := ?_
      work := ?_
      activeWork := ?_
      ancestorWork := ?_
      activeHeight := ?_
      heightIndex := ?_
      children := ?_
      checkpoint := by rw [only]; exact hcp }
  · show rebuilt.PathTo rebuilt.tipHash rebuilt.heightMap
    rw [hpath, htip, hmap]
    exact hactive
  · intro hdr hhdr
    have hhdr' : rebuilt.index.lookup rebuilt.tipHash = some hdr := hhdr
    rw [hindex, htip] at hhdr'
    show rebuilt.tipBits = hdr.bits
    rw [only]
    exact hbits hhdr'
  · intro id w hw
    obtain ⟨l, hl, rfl⟩ := chainWork.mp hw
    refine ⟨l, ?_, (hwork l).symm, blockHeight hl⟩
    show rebuilt.PathTo id l
    rw [hpath]
    exact hl
  · intro id hid
    have hid' : id ∈ rebuilt.heightMap := hid
    rw [hmap] at hid'
    obtain ⟨l, hl⟩ := Forest.PathTo.connected_of_mem hactive hid'
    exact hconn hl
  · intro id w l j _ hl hj
    have hl' : rebuilt.PathTo id l := hl
    rw [hpath] at hl'
    obtain ⟨l', hl''⟩ := Forest.PathTo.connected_of_mem hl' hj
    exact hconn hl''
  · intro i id hi
    have hi' : rebuilt.heightMap[i]? = some id := hi
    rw [hmap] at hi'
    exact heightIndex.mpr (Or.inl hi')
  · intro id k hk
    have hsome : ∃ l, mid.PathTo id l ∧ l.length = k + 1 := by
      rcases heightIndex.mp hk with hi | ⟨l, hl, -, hlen⟩
      · have hlt := (List.getElem?_eq_some_iff.mp hi).1
        refine ⟨_, hactive.take hi, ?_⟩
        rw [List.length_take]
        omega
      · exact ⟨l, hl, hlen⟩
    obtain ⟨l, hl, hlen⟩ := hsome
    obtain ⟨w, hw⟩ := hconn hl
    refine ⟨l, w, ?_, hlen, hw⟩
    show rebuilt.PathTo id l
    rw [hpath]
    exact hl
  · intro link id hid
    obtain ⟨hdr, hhdr, hprev⟩ := children.mp hid
    refine ⟨hdr, ?_, hprev⟩
    show rebuilt.index.lookup id = some hdr
    rw [hindex]
    exact hhdr

/-- Purging a refused candidate keeps the state coherent. -/
theorem PurgedCandidate.coherent (hs : s.Coherent c p H) {root : Hash512}
    (h : PurgedCandidate c p H root s s') : s'.Coherent c p H := by
  obtain ⟨mid, rebuilt, files, hmid, hrebuilt, rfl⟩ := h.steps
  have hactive : mid.PathTo s.tipHash s.heightMap := by
    refine hmid.pathTo hs.index hs.active fun j hj _ => ?_
    obtain ⟨i, hi⟩ := List.mem_iff_getElem?.mp hj
    exact ⟨i, hs.activeHeight hi⟩
  refine hrebuilt.coherent hmid.indexOk ⟨?_, ?_⟩ ?_ ?_ ?_ ?_
  · intro k b hb
    rw [hmid.heightFiles] at hb
    exact hs.stored.1 k b hb
  · intro id b hb
    exact hs.stored.2 id b (hmid.hashFiles.mp hb).1
  · rw [hmid.heightMap, show mid.tipHash = s.tipHash by rw [hmid.only]]
    exact hactive
  · rw [hmid.heightMap, show mid.bestHeight = s.bestHeight by rw [hmid.only]]
    exact hs.best
  · intro hdr hhdr
    rw [show mid.tipHash = s.tipHash by rw [hmid.only]] at hhdr
    rw [show mid.tipBits = s.tipBits by rw [hmid.only]]
    exact hs.tipBits (hmid.index.mp hhdr).1
  · intro k hash hcp
    rw [show mid.localCheckpoint = s.localCheckpoint by rw [hmid.only]] at hcp
    rw [hmid.heightMap]
    exact hs.checkpoint hcp

end Blockchain

end Cryptex
