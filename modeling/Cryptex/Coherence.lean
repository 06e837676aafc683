import Cryptex.KnownBlocks

/-!
# The coherence of a node's state

`Coherent` says how the maps of a `Blockchain` fit together: the active
chain is a path of known headers, work and heights are those of paths, the
waiting lists and the checkpoint refer to what is known. It says nothing
about which blocks hide behind the ids beyond their headers.

`Outcome` lists what one pass of `accept_block` over a block can do from a
coherent state, with the facts that hold in each case.
-/

namespace Cryptex

open Forest

namespace Blockchain

/-! ## Coherence -/

structure Coherent (c : Crypto) (p : ChainParams) (H : Set BlockHeader) (s : Blockchain) :
    Prop where
  index : s.IndexOk c H
  stored : (∀ h b, s.store.heightFiles.lookup h = some b → b.header ∈ H) ∧
    ∀ id b, s.store.hashFiles.lookup id = some b → b.header ∈ H
  active : s.PathTo s.tipHash s.heightMap
  best : s.bestHeight + 1 = s.heightMap.length
  tipBits : ∀ {hdr}, s.index.lookup s.tipHash = some hdr → s.tipBits = hdr.bits
  work : ∀ {id w}, s.chainWork.lookup id = some w → ∃ l, s.PathTo id l ∧
    w = s.pathWork p l ∧ s.blockHeight.lookup id = some (l.length - 1)
  activeWork : ∀ {id}, id ∈ s.heightMap → ∃ w, s.chainWork.lookup id = some w
  ancestorWork : ∀ {id w l j}, s.chainWork.lookup id = some w → s.PathTo id l → j ∈ l →
    ∃ w', s.chainWork.lookup j = some w'
  activeHeight : ∀ {i id}, s.heightMap[i]? = some id → s.heightIndex.lookup id = some i
  heightIndex : ∀ {id h}, s.heightIndex.lookup id = some h →
    ∃ l w, s.PathTo id l ∧ l.length = h + 1 ∧ s.chainWork.lookup id = some w
  children : ∀ {link id}, id ∈ (s.children.lookup link).getD [] →
    ∃ hdr, s.index.lookup id = some hdr ∧ hdr.prevBlockHash = link ∧ link ≠ 0
  checkpoint : ∀ {h hash}, s.localCheckpoint = some (h, hash) → s.heightMap[h]? = some hash

variable {c : Crypto} {p : ChainParams} {env : Env} {H : Set BlockHeader} {s s' : Blockchain}

theorem Coherent.heightMap_ne_nil (hs : s.Coherent c p H) : s.heightMap ≠ [] :=
  Forest.PathTo.ne_nil hs.active

theorem Coherent.tip_mem (hs : s.Coherent c p H) : s.tipHash ∈ s.heightMap :=
  Forest.PathTo.mem_self hs.active

theorem Coherent.heightMap_best (hs : s.Coherent c p H) :
    s.heightMap[s.bestHeight]? = some s.tipHash := by
  have h := Forest.PathTo.getLast? hs.active
  have := hs.best
  rw [List.getLast?_eq_getElem?] at h
  rw [← h]
  congr 1
  omega

/-- The tip's work is that of the active chain. -/
theorem Coherent.tipWork (hs : s.Coherent c p H) :
    s.chainWork.lookup s.tipHash = some (s.pathWork p s.heightMap) := by
  obtain ⟨w, hw⟩ := hs.activeWork hs.tip_mem
  obtain ⟨l, hl, rfl, -⟩ := hs.work hw
  rw [hw, hl.unique hs.active]

theorem Coherent.beatsTip_iff (hs : s.Coherent c p H) (w : Nat) :
    s.beatsTip w = true ↔ s.pathWork p s.heightMap < w := by
  rw [beatsTip, hs.tipWork]
  simp

/-- The position of an active id is the length of the path before it. -/
theorem Coherent.active_position (hs : s.Coherent c p H) {i : Nat} {id : Hash512}
    {l : List Hash512} (hi : s.heightMap[i]? = some id) (hl : s.PathTo id l) :
    l = s.heightMap.take (i + 1) ∧ l.length = i + 1 := by
  have heq := (hs.active.take hi).unique hl
  have hlt := (List.getElem?_eq_some_iff.mp hi).1
  refine ⟨heq.symm, ?_⟩
  rw [← heq, List.length_take]
  omega

/-! ## Caching a block -/

section

variable {blk : Block}

/-- The header index after a block has been cached. -/
theorem cacheBlock_lookup (hH : CollisionFree c H) (hs : s.IndexOk c H) (hb : blk.header ∈ H)
    (j : Hash512) : (s.cacheBlock c env blk).index.lookup j
      = if j = blk.header.powHash c then some blk.header else s.index.lookup j := by
  rw [cacheBlock]
  cases hid : s.index.lookup (blk.header.powHash c) with
  | none => simp [FinMap.lookup_insert_ite]
  | some hdr =>
      simp only [Option.isSome_some, if_true]
      by_cases hj : j = blk.header.powHash c
      · subst hj
        rw [if_pos rfl, hid, hH.eq_of_powHash (hs.mem hid) hb (hs.id_eq hid)]
      · rw [if_neg hj]

theorem cacheBlock_lookup_self (hH : CollisionFree c H) (hs : s.IndexOk c H)
    (hb : blk.header ∈ H) :
    (s.cacheBlock c env blk).index.lookup (blk.header.powHash c) = some blk.header := by
  rw [cacheBlock_lookup hH hs hb, if_pos rfl]

/-- What was known keeps its header. -/
theorem cacheBlock_lookup_mono (hH : CollisionFree c H) (hs : s.IndexOk c H) (hb : blk.header ∈ H)
    {j : Hash512} {hdr : BlockHeader} (hj : s.index.lookup j = some hdr) :
    (s.cacheBlock c env blk).index.lookup j = some hdr := by
  rw [cacheBlock_lookup hH hs hb]
  split
  · next heq =>
      subst heq
      rw [hH.eq_of_powHash hb (hs.mem hj) (hs.id_eq hj).symm]
  · exact hj

theorem cacheBlock_indexOk (hH : CollisionFree c H) (hs : s.IndexOk c H) (hb : blk.header ∈ H) :
    (s.cacheBlock c env blk).IndexOk c H := by
  have hlookup : ∀ j, (s.cacheBlock c env blk).index.lookup j
      = if j = blk.header.powHash c then some blk.header else s.index.lookup j :=
    cacheBlock_lookup hH hs hb
  constructor
  · intro id hdr hid
    rw [hlookup] at hid
    split at hid
    · next heq => cases hid; exact heq.symm
    · exact hs.id_eq hid
  · intro id hdr hid
    rw [hlookup] at hid
    split at hid
    · cases hid; exact hb
    · exact hs.mem hid
  · intro link id
    have hlink : (s.cacheBlock c env blk).linkIndex
        = s.linkIndex.insert (blk.header.hash c) (blk.header.powHash c) := rfl
    rw [hlink, FinMap.lookup_insert_ite, hlookup]
    by_cases hl : link = blk.header.hash c
    · subst hl
      rw [if_pos rfl]
      constructor
      · intro h
        cases h
        exact ⟨blk.header, by rw [if_pos rfl], rfl⟩
      · rintro ⟨hdr, hid, hhash⟩
        split at hid
        · next heq => rw [heq]
        · have heq := hH.hash_inj (hs.mem hid) hb hhash
          rw [← hs.id_eq hid, heq]
    · rw [if_neg hl, hs.link]
      constructor
      · rintro ⟨hdr, hid, hhash⟩
        refine ⟨hdr, ?_, hhash⟩
        split
        · next heq =>
            subst heq
            rw [hH.eq_of_powHash hb (hs.mem hid) (hs.id_eq hid).symm]
        · exact hid
      · rintro ⟨hdr, hid, hhash⟩
        split at hid
        · cases hid; exact absurd hhash.symm hl
        · exact ⟨hdr, hid, hhash⟩
  · intro id b hb'
    rw [hlookup]
    have hpool : (s.cacheBlock c env blk).blockPool.lookup id = some b →
        (id = blk.header.powHash c ∧ b = blk) ∨ s.blockPool.lookup id = some b := by
      rw [cacheBlock]
      simp only
      split
      · intro h; exact Or.inr h
      · rw [FinMap.lookup_insert_ite]
        split
        · next heq => intro h; exact Or.inl ⟨heq, (Option.some.inj h).symm⟩
        · intro h; exact Or.inr h
    rcases hpool hb' with ⟨rfl, rfl⟩ | hold
    · rw [if_pos rfl]
    · have hid := hs.pool hold
      split
      · next heq =>
          subst heq
          rw [hH.eq_of_powHash hb (hs.mem hid) (hs.id_eq hid).symm]
      · exact hid

theorem cacheBlock_linkIndex_mono (hH : CollisionFree c H) (hs : s.IndexOk c H)
    (hb : blk.header ∈ H) {link : Hash256} {id : Hash512} (h : s.linkIndex.lookup link = some id) :
    (s.cacheBlock c env blk).linkIndex.lookup link = some id := by
  obtain ⟨hdr, hid, hhash⟩ := hs.link.mp h
  exact (cacheBlock_indexOk hH hs hb).link.mpr
    ⟨hdr, cacheBlock_lookup_mono hH hs hb hid, hhash⟩

/-- Paths stay paths when a block is cached. -/
theorem cacheBlock_pathTo (hH : CollisionFree c H) (hs : s.IndexOk c H) (hb : blk.header ∈ H)
    {id : Hash512} {l : List Hash512} (h : s.PathTo id l) :
    (s.cacheBlock c env blk).PathTo id l :=
  hs.pathTo (cacheBlock_indexOk hH hs hb) h fun _ _ _ hj => cacheBlock_lookup_mono hH hs hb hj

/-- A new path runs through the block that was cached. -/
theorem cacheBlock_pathTo_inv (hH : CollisionFree c H) (hs : s.IndexOk c H) (hb : blk.header ∈ H)
    {id : Hash512} {l : List Hash512} (h : (s.cacheBlock c env blk).PathTo id l)
    (hnot : blk.header.powHash c ∉ l) : s.PathTo id l := by
  refine (cacheBlock_indexOk hH hs hb).pathTo hs h fun j hj hdr hhdr => ?_
  have hne : j ≠ blk.header.powHash c := fun heq => hnot (heq ▸ hj)
  rw [cacheBlock_lookup hH hs hb, if_neg hne] at hhdr
  exact hhdr

theorem cacheBlock_pathWork (hH : CollisionFree c H) (hs : s.IndexOk c H) (hb : blk.header ∈ H)
    {id : Hash512} {l : List Hash512} (h : s.PathTo id l) :
    (s.cacheBlock c env blk).pathWork p l = s.pathWork p l := by
  refine pathWork_congr fun j hj => ?_
  obtain ⟨hdr, hhdr⟩ := PathTo.lookup h hj
  rw [hhdr, cacheBlock_lookup_mono hH hs hb hhdr]

theorem cacheBlock_stored (hs : s.Coherent c p H) (hb : blk.header ∈ H) :
    (∀ h b, (s.cacheBlock c env blk).store.heightFiles.lookup h = some b → b.header ∈ H) ∧
      ∀ id b, (s.cacheBlock c env blk).store.hashFiles.lookup id = some b → b.header ∈ H := by
  constructor
  · intro h b hfile
    rw [cacheBlock] at hfile
    simp only [BlockStore.storeByHash_heightFiles] at hfile
    exact hs.stored.1 h b hfile
  · intro id b hfile
    rw [cacheBlock] at hfile
    simp only [BlockStore.storeByHash] at hfile
    split at hfile
    · simp only [FinMap.lookup_insert_ite] at hfile
      split at hfile
      · cases hfile; exact hb
      · exact hs.stored.2 id b hfile
    · exact hs.stored.2 id b hfile

theorem Coherent.cacheBlock (hH : CollisionFree c H) (hs : s.Coherent c p H)
    (hb : blk.header ∈ H) : (s.cacheBlock c env blk).Coherent c p H := by
  have hpath : ∀ {id l}, s.PathTo id l → (s.cacheBlock c env blk).PathTo id l :=
    fun h => cacheBlock_pathTo hH hs.index hb h
  refine
    { index := cacheBlock_indexOk hH hs.index hb
      stored := cacheBlock_stored hs hb
      active := hpath hs.active
      best := hs.best
      tipBits := ?_
      work := ?_
      activeWork := hs.activeWork
      ancestorWork := ?_
      activeHeight := hs.activeHeight
      heightIndex := ?_
      children := ?_
      checkpoint := hs.checkpoint }
  · intro hdr hhdr
    obtain ⟨hdr', hhdr'⟩ := PathTo.lookup hs.active hs.tip_mem
    have htip : (s.cacheBlock c env blk).index.lookup s.tipHash = some hdr := hhdr
    rw [cacheBlock_lookup_mono hH hs.index hb hhdr'] at htip
    cases htip
    exact hs.tipBits hhdr'
  · intro id w hw
    obtain ⟨l, hl, rfl, hbh⟩ := hs.work hw
    exact ⟨l, hpath hl, (cacheBlock_pathWork hH hs.index hb hl).symm, hbh⟩
  · intro id w l j hw hl hj
    obtain ⟨l', hl', -, -⟩ := hs.work hw
    rw [hl.unique (hpath hl')] at hj
    exact hs.ancestorWork hw hl' hj
  · intro id h hh
    obtain ⟨l, w, hl, hlen, hw⟩ := hs.heightIndex hh
    exact ⟨l, w, hpath hl, hlen, hw⟩
  · intro link id hid
    obtain ⟨hdr, hhdr, hprev⟩ := hs.children hid
    exact ⟨hdr, cacheBlock_lookup_mono hH hs.index hb hhdr, hprev⟩

end

end Blockchain

end Cryptex
