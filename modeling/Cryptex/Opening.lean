import Cryptex.Loading

/-!
# Opening a stored chain or an empty directory

What the constructor makes of a directory with a stored chain, and of an
empty one: a coherent state whose files describe it, with the blocks of the
active chain in the pool.
-/

namespace Cryptex

open Forest

namespace Blockchain

variable {c : Crypto} {p : ChainParams} {env : Env} {H : Set BlockHeader} {s s' : Blockchain}

/-! ## The pool of the active chain -/

/-- Caching the active blocks changes the pool and the by-hash files only. -/
theorem cacheActive_only : ∀ (l : List Nat) (s : Blockchain),
    cacheActive c env s l = { s with
      blockPool := (cacheActive c env s l).blockPool
      store := (cacheActive c env s l).store } ∧
    (cacheActive c env s l).store.heightFiles = s.store.heightFiles
  | [], s => ⟨rfl, rfl⟩
  | h :: rest, s => by
      rw [cacheActive]
      cases s.store.load h with
      | none => exact cacheActive_only rest s
      | some blk =>
          simp only
          obtain ⟨honly, hfiles⟩ := cacheActive_only rest { s with
            blockPool := s.blockPool.insert (blk.header.powHash c) blk
            store := (s.store.storeByHash env.canWrite (blk.header.powHash c) blk).1 }
          refine ⟨honly, ?_⟩
          rw [hfiles]
          exact BlockStore.storeByHash_heightFiles _ _ _ _

/-- What the pool and the by-hash files hold afterwards was there or comes
from a height file. -/
theorem cacheActive_sub {id : Hash512} {b : Block} : ∀ (l : List Nat) (s : Blockchain),
    ((cacheActive c env s l).blockPool.lookup id = some b →
      s.blockPool.lookup id = some b ∨
        ∃ h ∈ l, s.store.load h = some b ∧ b.header.powHash c = id) ∧
    ((cacheActive c env s l).store.hashFiles.lookup id = some b →
      s.store.hashFiles.lookup id = some b ∨
        ∃ h ∈ l, s.store.load h = some b ∧ b.header.powHash c = id)
  | [], s => ⟨Or.inl, Or.inl⟩
  | h :: rest, s => by
      rw [cacheActive]
      have hmem : ∀ {t : Blockchain}, t.store.heightFiles = s.store.heightFiles →
          (∃ k ∈ rest, t.store.load k = some b ∧ b.header.powHash c = id) →
          ∃ k ∈ h :: rest, s.store.load k = some b ∧ b.header.powHash c = id := by
        rintro t ht ⟨k, hk, hload, hid⟩
        refine ⟨k, List.mem_cons_of_mem _ hk, ?_, hid⟩
        rw [BlockStore.load, ← ht]
        exact hload
      cases hload : s.store.load h with
      | none =>
          obtain ⟨hpool, hfiles⟩ := cacheActive_sub rest s
          exact ⟨fun hb => (hpool hb).imp_right (hmem rfl), fun hb => (hfiles hb).imp_right (hmem rfl)⟩
      | some blk =>
          simp only
          obtain ⟨hpool, hfiles⟩ := cacheActive_sub rest { s with
            blockPool := s.blockPool.insert (blk.header.powHash c) blk
            store := (s.store.storeByHash env.canWrite (blk.header.powHash c) blk).1 }
          have hself : id = blk.header.powHash c → some blk = some b →
              ∃ k ∈ h :: rest, s.store.load k = some b ∧ b.header.powHash c = id := by
            rintro rfl heq
            cases heq
            exact ⟨h, by simp, hload, rfl⟩
          constructor
          · intro hb
            rcases hpool hb with hold | hnew
            · simp only [FinMap.lookup_insert_ite] at hold
              split at hold
              · next heq => exact Or.inr (hself heq hold)
              · exact Or.inl hold
            · exact Or.inr (hmem (BlockStore.storeByHash_heightFiles _ _ _ _) hnew)
          · intro hb
            rcases hfiles hb with hold | hnew
            · simp only [BlockStore.storeByHash] at hold
              split at hold
              · simp only [FinMap.lookup_insert_ite] at hold
                split at hold
                · next heq => exact Or.inr (hself heq hold)
                · exact Or.inl hold
              · exact Or.inl hold
            · exact Or.inr (hmem (BlockStore.storeByHash_heightFiles _ _ _ _) hnew)

/-- The by-hash file of an id that no height file has is left alone. -/
theorem cacheActive_other {id : Hash512} : ∀ (l : List Nat) (s : Blockchain),
    (∀ h ∈ l, ∀ b, s.store.load h = some b → b.header.powHash c ≠ id) →
    (cacheActive c env s l).store.loadByHash id = s.store.loadByHash id
  | [], _, _ => rfl
  | h :: rest, s, hother => by
      rw [cacheActive]
      cases hload : s.store.load h with
      | none => exact cacheActive_other rest s fun k hk => hother k (List.mem_cons_of_mem _ hk)
      | some blk =>
          simp only
          rw [cacheActive_other rest]
          · simp only [BlockStore.loadByHash, BlockStore.storeByHash]
            split
            · exact Finmap.lookup_insert_of_ne _ (hother h (by simp) blk hload).symm
            · rfl
          · intro k hk b hb
            simp only [BlockStore.load, BlockStore.storeByHash_heightFiles] at hb
            exact hother k (List.mem_cons_of_mem _ hk) b hb

/-- A block whose id no other height file has is in the pool afterwards. -/
theorem cacheActive_pool {id : Hash512} {b : Block} : ∀ (l : List Nat) (s : Blockchain),
    (∀ h ∈ l, ∀ b', s.store.load h = some b' → b'.header.powHash c = id → b' = b) →
    (s.blockPool.lookup id = some b ∨ ∃ h ∈ l, s.store.load h = some b ∧ b.header.powHash c = id) →
    (cacheActive c env s l).blockPool.lookup id = some b
  | [], s, _, h => by
      rcases h with h | ⟨k, hk, -⟩
      · exact h
      · cases hk
  | h :: rest, s, hsame, hfound => by
      rw [cacheActive]
      cases hload : s.store.load h with
      | none =>
          refine cacheActive_pool rest s (fun k hk => hsame k (List.mem_cons_of_mem _ hk)) ?_
          rcases hfound with hold | ⟨k, hk, hkb, hid⟩
          · exact Or.inl hold
          · rcases List.mem_cons.mp hk with rfl | hk
            · rw [hload] at hkb; cases hkb
            · exact Or.inr ⟨k, hk, hkb, hid⟩
      | some blk =>
          simp only
          have hstore : (s.store.storeByHash env.canWrite (blk.header.powHash c) blk).1.heightFiles
              = s.store.heightFiles := BlockStore.storeByHash_heightFiles _ _ _ _
          refine cacheActive_pool rest _ (fun k hk b' hb' => ?_) ?_
          · simp only [BlockStore.load, hstore] at hb'
            exact hsame k (List.mem_cons_of_mem _ hk) b' hb'
          · simp only [FinMap.lookup_insert_ite, BlockStore.load, hstore]
            by_cases heq : id = blk.header.powHash c
            · left
              rw [if_pos heq, hsame h (by simp) blk hload heq.symm]
            · rcases hfound with hold | ⟨k, hk, hkb, hid⟩
              · left
                rw [if_neg heq]
                exact hold
              · rcases List.mem_cons.mp hk with rfl | hk
                · rw [hload] at hkb
                  cases hkb
                  exact absurd hid.symm heq
                · exact Or.inr ⟨k, hk, hkb, hid⟩

/-! ## A stored chain is found -/

/-- What an opened chain looks like before its checkpoint is compared: the
maps are coherent and just recomputed. -/
structure Opened (c : Crypto) (p : ChainParams) (H : Set BlockHeader) (s : Blockchain) : Prop where
  coherent : Coherent c p H { s with localCheckpoint := none }
  rebuilt : Rebuilt p s s

/-- A state that was just recomputed would be recomputed to itself. -/
theorem Rebuilt.self {mid : Blockchain} (h : Rebuilt p mid s) : Rebuilt p s s := by
  obtain ⟨only, children, chainWork, blockHeight, heightIndex⟩ := h
  have hup : s.up = mid.up := by rw [only]; rfl
  have hpath : s.PathTo = mid.PathTo := by rw [PathTo, PathTo, hup]
  have hindex : s.index = mid.index := by rw [only]
  have hmap : s.heightMap = mid.heightMap := by rw [only]
  have hwork : ∀ l, s.pathWork p l = mid.pathWork p l :=
    fun l => pathWork_congr fun _ _ => by rw [hindex]
  refine ⟨rfl, ?_, ?_, ?_, ?_⟩
  · intro link id
    rw [hindex]
    exact children
  · intro id w
    simp only [hpath, hwork]
    exact chainWork
  · intro id l hl
    rw [hpath] at hl
    exact blockHeight hl
  · intro id h
    rw [hmap, hpath]
    exact heightIndex

/-- The recomputed maps do not depend on the checkpoint. -/
theorem Rebuilt.forgetCheckpoint (h : Rebuilt p s s') :
    Rebuilt p { s with localCheckpoint := none } { s' with localCheckpoint := none } :=
  ⟨by rw [h.only], h.children, h.chainWork, h.blockHeight, h.heightIndex⟩

theorem Rebuilt.opened {mid : Blockchain} (h : Rebuilt p mid s) (hmid : mid.IndexOk c H)
    (hstored : (∀ i b, mid.store.heightFiles.lookup i = some b → b.header ∈ H) ∧
      ∀ id b, mid.store.hashFiles.lookup id = some b → b.header ∈ H)
    (hactive : mid.PathTo mid.tipHash mid.heightMap)
    (hbest : mid.bestHeight + 1 = mid.heightMap.length)
    (hbits : ∀ {hdr}, mid.index.lookup mid.tipHash = some hdr → mid.tipBits = hdr.bits) :
    s.Opened c p H := by
  have hmid' : ({ mid with localCheckpoint := none } : Blockchain).IndexOk c H :=
    hmid.congr rfl rfl rfl
  exact ⟨h.forgetCheckpoint.coherent hmid' hstored hactive hbest hbits (fun hk => by cases hk),
    h.self⟩

/-- The files describe the state: the next start finds the same chain. -/
structure Described (c : Crypto) (s : Blockchain) : Prop where
  index : s.files.index = some s.heightMap
  headers : ∃ entries, s.files.headers = some entries ∧ (entries.map Prod.fst).Nodup ∧
    (∀ e ∈ entries, s.index.lookup e.1 = some e.2) ∧
    ∀ id ∈ s.heightMap, ∃ hdr, (id, hdr) ∈ entries
  complete : ∀ {i id}, s.heightMap[i]? = some id →
    ∃ b, s.store.heightFiles.lookup i = some b ∧ b.header.powHash c = id
  hashFiles : ∀ {id b}, s.store.hashFiles.lookup id = some b → b.header.powHash c = id

/-- The pool holds the blocks of the active chain and no others. -/
def PoolActive (s : Blockchain) : Prop :=
  ∀ id b, s.blockPool.lookup id = some b ↔
    ∃ h, s.heightMap[h]? = some id ∧ s.store.load h = some b

section

variable {dir : DataDir} {ids : List Hash512} {entries : List (Hash512 × BlockHeader)}

theorem indexOk_of_entries (hH : CollisionFree c H) (hnd : (entries.map Prod.fst).Nodup)
    (hentry : ∀ e ∈ entries, e.2.powHash c = e.1 ∧ e.2 ∈ H) (hs : Loading c entries ids s)
    (hpool : ∀ {id blk}, s.blockPool.lookup id = some blk → s.index.lookup id = some blk.header) :
    s.IndexOk c H := by
  have hmem : ∀ {id hdr}, s.index.lookup id = some hdr ↔ (id, hdr) ∈ entries := by
    intro id hdr
    rw [hs.index]
    exact lookup_indexOf hnd
  refine ⟨fun hid => (hentry _ (hmem.mp hid)).1, fun hid => (hentry _ (hmem.mp hid)).2, ?_, hpool⟩
  intro link id
  rw [hs.linkIndex, lookup_linkIndexOf hH hnd hentry]
  simp only [hmem]

/-- Headers of the index that include those of a path lead to the same path. -/
theorem IndexOk.storedPath (hH : CollisionFree c H) (hs : s.IndexOk c H)
    (hnd : (entries.map Prod.fst).Nodup) (hsub : ∀ e ∈ entries, s.index.lookup e.1 = some e.2)
    (hcover : ∀ id ∈ ids, ∃ hdr, (id, hdr) ∈ entries) {tip : Hash512} (hpath : s.PathTo tip ids) :
    Forest.PathTo (linkOf (indexOf entries) (linkIndexOf c entries)) tip ids := by
  have hentry : ∀ e ∈ entries, e.2.powHash c = e.1 ∧ e.2 ∈ H := fun e he =>
    ⟨hs.id_eq (hsub e he), hs.mem (hsub e he)⟩
  have hloading : Loading c entries s.heightMap { s with
      index := indexOf entries
      linkIndex := linkIndexOf c entries
      blockPool := ∅ } := ⟨rfl, rfl, rfl⟩
  have hok : ({ s with
      index := indexOf entries
      linkIndex := linkIndexOf c entries
      blockPool := ∅ } : Blockchain).IndexOk c H :=
    indexOk_of_entries hH hnd hentry hloading
      (fun hb => by rw [Finmap.lookup_empty] at hb; cases hb)
  refine hs.pathTo hok hpath fun j hj hdr hhdr => ?_
  obtain ⟨hdr', hmem⟩ := hcover j hj
  rw [hsub _ hmem] at hhdr
  cases hhdr
  exact (lookup_indexOf hnd).mpr hmem

/-- A coherent state that its files describe leaves a stored chain behind. -/
theorem Described.storedChain (hH : CollisionFree c H) (hs : s.Coherent c p H)
    (h : s.Described c) : ∃ entries, StoredChain c H s.dataDir s.heightMap entries := by
  obtain ⟨entries, hheaders, hnd, hsub, hactive⟩ := h.headers
  have hentry : ∀ e ∈ entries, e.2.powHash c = e.1 ∧ e.2 ∈ H := fun e he =>
    ⟨hs.index.id_eq (hsub e he), hs.index.mem (hsub e he)⟩
  refine ⟨entries,
    { index := h.index
      headers := hheaders
      nodup := hnd
      entry := hentry
      path := ⟨s.tipHash, hs.index.storedPath hH hnd hsub hactive hs.active⟩
      complete := ?_
      heightFiles := ?_
      hashFiles := fun hb => ⟨hs.stored.2 _ _ hb, h.hashFiles hb⟩ }⟩
  · intro i id hi
    obtain ⟨b, hb, -⟩ := h.complete hi
    exact ⟨b, hb⟩
  · intro i b hb
    refine ⟨hs.stored.1 i b hb, fun id hi => ?_⟩
    obtain ⟨b', hb', hid⟩ := h.complete hi
    have hb'' : s.store.heightFiles.lookup i = some b := hb
    rw [hb''] at hb'
    cases hb'
    exact hid

/-- The placeholders of `load_index` are all replaced. -/
theorem insertAll_placeholders (h : StoredChain c H dir ids entries) :
    FinMap.insertAll (FinMap.insertAll ∅ (ids.map fun id => (id, ({} : BlockHeader)))) entries
      = indexOf entries := by
  refine Finmap.ext_lookup fun k => ?_
  by_cases hk : k ∈ entries.map Prod.fst
  · obtain ⟨⟨id, hdr⟩, he, rfl⟩ := List.mem_map.mp hk
    rw [indexOf, FinMap.lookup_insertAll_of_mem h.nodup he,
      FinMap.lookup_insertAll_of_mem h.nodup he]
  · have hnot : k ∉ (ids.map fun id => (id, ({} : BlockHeader))).map Prod.fst := by
      intro hmem
      rw [List.map_map] at hmem
      obtain ⟨id, hid, rfl⟩ := List.mem_map.mp hmem
      obtain ⟨hdr, hhdr⟩ := h.lookup hid
      exact hk (List.mem_map.mpr ⟨_, (lookup_indexOf h.nodup).mp hhdr, rfl⟩)
    rw [indexOf, FinMap.lookup_insertAll_of_notMem hk, FinMap.lookup_insertAll_of_notMem hk,
      FinMap.lookup_insertAll_of_notMem hnot]

/-- Index and headers are read back. -/
theorem loadHeaders_stored (hH : CollisionFree c H) (h : StoredChain c H dir ids entries) :
    ∃ s, loadHeaders c p (loadIndex (initial p dir)) = some s ∧
      SameHeaders { initial p dir with
        heightMap := ids
        index := indexOf entries
        linkIndex := linkIndexOf c entries } s := by
  have hload : Loading c entries ids { initial p dir with
      heightMap := ids
      index := indexOf entries
      linkIndex := linkIndexOf c entries } := ⟨rfl, rfl, rfl⟩
  obtain ⟨s₁, hnote, hsame₁⟩ := noteActive_some hH h 0 hload (fun id (hid : id ∈ ids) => hid)
  obtain ⟨s₂, hwork, hsame₂⟩ := activeWork_some (p := p) h ids [] (hload.same hsame₁) rfl
    (fun j hj => absurd hj List.not_mem_nil)
  refine ⟨s₂, ?_, hsame₁.trans hsame₂⟩
  have hindex : loadIndex (initial p dir) = { initial p dir with
      heightMap := ids
      index := FinMap.insertAll ∅ (ids.map fun id => (id, ({} : BlockHeader))) } := by
    have hfiles : (initial p dir).files.index = some ids := h.index
    rw [loadIndex, hfiles]
    rfl
  have hheaders : (initial p dir).files.headers = some entries := h.headers
  rw [hindex, loadHeaders]
  simp only [hheaders, insertAll_placeholders h]
  have hlink : FinMap.insertAll (initial p dir).linkIndex (entries.map fun e => (e.2.hash c, e.1))
      = linkIndexOf c entries := rfl
  rw [hlink, hnote, Option.bind_some]
  have hmap : s₁.heightMap = ids := (hload.same hsame₁).heightMap
  rw [hmap]
  exact hwork

/-- Different active heights have different blocks. -/
theorem StoredChain.height_unique (h : StoredChain c H dir ids entries) {i j : Nat} {b b' : Block}
    (hi : i < ids.length) (hj : j < ids.length) (hb : dir.store.heightFiles.lookup i = some b)
    (hb' : dir.store.heightFiles.lookup j = some b')
    (heq : b.header.powHash c = b'.header.powHash c) : b = b' := by
  obtain ⟨tip, hpath⟩ := h.path
  have hbi := (h.heightFiles hb).2 _ (List.getElem?_eq_getElem hi)
  have hbj := (h.heightFiles hb').2 _ (List.getElem?_eq_getElem hj)
  have hij : i = j := by
    refine (List.getElem?_inj hi hpath.nodup).mp ?_
    rw [List.getElem?_eq_getElem hi, List.getElem?_eq_getElem hj, ← hbi, ← hbj, heq]
  subst hij
  rw [hb] at hb'
  exact Option.some.inj hb'

/-- `ensure_genesis` on a loaded chain: the tip is set and the active blocks
are cached. -/
theorem ensureGenesis_stored (p : ChainParams) (env : Env) (hH : CollisionFree c H) (h : StoredChain c H dir ids entries)
    (hs : Loading c entries ids s) {tip : Hash512} {tipHdr : BlockHeader}
    (hlast : ids.getLast? = some tip) (htip : (indexOf entries).lookup tip = some tipHdr) :
    ∃ t, ensureGenesis c p env s = some (cacheActive c env t (List.range ids.length)) ∧
      SameHeaders s t ∧ t.bestHeight = ids.length - 1 ∧ t.tipHash = tip ∧
      t.tipBits = tipHdr.bits := by
  have hne : ids ≠ [] := h.ids_ne_nil
  have hlookup : s.index.lookup tip = some tipHdr := by rw [hs.index]; exact htip
  have hcond : s.heightMap ≠ [] ∧ s.index ≠ ∅ := by
    refine ⟨by rw [hs.heightMap]; exact hne, fun hempty => ?_⟩
    rw [hempty, Finmap.lookup_empty] at hlookup
    cases hlookup
  have htipEq : s.heightMap.getLast?.getD s.tipHash = tip := by rw [hs.heightMap, hlast]; rfl
  have hbits : ((s.index.lookup (s.heightMap.getLast?.getD s.tipHash)).map (·.bits)).getD
      s.tipBits = tipHdr.bits := by
    rw [htipEq, hlookup]; rfl
  have hbest : s.heightMap.length - 1 = ids.length - 1 := by rw [hs.heightMap]
  have hlen : ids.length - 1 + 1 = ids.length := by
    have := List.length_pos_iff.mpr hne
    omega
  have hone : SameHeaders s { s with
      bestHeight := ids.length - 1, tipHash := tip, tipBits := tipHdr.bits } := rfl
  obtain ⟨t, hensure, hsame, hbest', htip', hbits'⟩ := ensureActive_some (p := p) hH h ids []
    (hs.same hone) rfl (fun j hj => absurd hj List.not_mem_nil)
  refine ⟨t, ?_, hone.trans hsame, hbest', htip', hbits'⟩
  rw [List.length_nil] at hensure
  rw [ensureGenesis, if_pos hcond]
  simp only [hbits, htipEq, hbest]
  rw [show ensureActive c p { s with
      bestHeight := ids.length - 1, tipHash := tip, tipBits := tipHdr.bits } 0 s.heightMap = some t
    from hs.heightMap ▸ hensure, Option.map_some, hlen]

/-- The pool holds the active blocks once they are cached. -/
theorem cacheActive_stored (h : StoredChain c H dir ids entries) {t : Blockchain}
    (hstore : t.store = dir.store) (hpool : t.blockPool = ∅) {id : Hash512} {b : Block} :
    ((cacheActive c env t (List.range ids.length)).blockPool.lookup id = some b ↔
      ∃ i : Nat, ids[i]? = some id ∧ dir.store.heightFiles.lookup i = some b) ∧
    ((cacheActive c env t (List.range ids.length)).store.hashFiles.lookup id = some b →
      b.header ∈ H ∧ b.header.powHash c = id) := by
  have hactive : ∀ {b : Block}, (∃ k ∈ List.range ids.length, t.store.load k = some b ∧
      b.header.powHash c = id) → ∃ i : Nat, ids[i]? = some id ∧
        dir.store.heightFiles.lookup i = some b := by
    rintro b ⟨k, hk, hload, hid⟩
    rw [BlockStore.load, hstore] at hload
    have hlt := List.mem_range.mp hk
    have hget := List.getElem?_eq_getElem hlt
    refine ⟨k, ?_, hload⟩
    rw [hget, ← (h.heightFiles hload).2 _ hget, hid]
  obtain ⟨hsubPool, hsubFiles⟩ := @cacheActive_sub c env id b (List.range ids.length) t
  refine ⟨⟨fun hb => ?_, ?_⟩, fun hb => ?_⟩
  · rcases hsubPool hb with hold | hnew
    · rw [hpool, Finmap.lookup_empty] at hold
      cases hold
    · exact hactive hnew
  · rintro ⟨i, hi, hb⟩
    have hlt := (List.getElem?_eq_some_iff.mp hi).1
    have hid := (h.heightFiles hb).2 id hi
    refine cacheActive_pool _ _ (fun k hk b' hload hid' => ?_)
      (Or.inr ⟨i, List.mem_range.mpr hlt, by rw [BlockStore.load, hstore]; exact hb, hid⟩)
    rw [BlockStore.load, hstore] at hload
    exact h.height_unique (List.mem_range.mp hk) hlt hload hb (hid'.trans hid.symm)
  · rcases hsubFiles hb with hold | ⟨k, hk, hload, hid⟩
    · rw [hstore] at hold
      exact h.hashFiles hold
    · rw [BlockStore.load, hstore] at hload
      exact ⟨(h.heightFiles hload).1, hid⟩

/-- The state in which the maps are recomputed. -/
structure Ready (c : Crypto) (H : Set BlockHeader) (dir : DataDir) (ids : List Hash512)
    (entries : List (Hash512 × BlockHeader)) (s : Blockchain) : Prop where
  loading : Loading c entries ids s
  pool : ∀ {id b}, s.blockPool.lookup id = some b ↔
    ∃ i : Nat, ids[i]? = some id ∧ dir.store.heightFiles.lookup i = some b
  heightFiles : s.store.heightFiles = dir.store.heightFiles
  hashFiles : ∀ {id b}, s.store.hashFiles.lookup id = some b →
    b.header ∈ H ∧ b.header.powHash c = id
  best : s.bestHeight = ids.length - 1
  tip : Forest.PathTo (linkOf (indexOf entries) (linkIndexOf c entries)) s.tipHash ids
  tipBits : ∀ {hdr}, (indexOf entries).lookup s.tipHash = some hdr → s.tipBits = hdr.bits
  files : s.files = dir.files
  utxo : s.utxo = ∅
  checkpoint : s.localCheckpoint = none

/-- The constructor finds the stored chain and caches its blocks. -/
theorem loadChain_stored (hH : CollisionFree c H) (h : StoredChain c H dir ids entries) :
    ∃ t tip tipHdr, loadChain c p env dir
        = some (rebuildKnownBlockState p env (cacheActive c env t (List.range ids.length))) ∧
      Loading c entries ids t ∧ SameHeaders { initial p dir with
        heightMap := ids
        index := indexOf entries
        linkIndex := linkIndexOf c entries } t ∧
      t.bestHeight = ids.length - 1 ∧ t.tipHash = tip ∧ t.tipBits = tipHdr.bits ∧
      (indexOf entries).lookup tip = some tipHdr ∧
      Forest.PathTo (linkOf (indexOf entries) (linkIndexOf c entries)) tip ids := by
  obtain ⟨tip, hpath⟩ := h.path
  obtain ⟨tipHdr, htip⟩ := h.lookup hpath.mem_self
  obtain ⟨s₁, hload, hsame₁⟩ := loadHeaders_stored (p := p) hH h
  have hbase : Loading c entries ids { initial p dir with
      heightMap := ids
      index := indexOf entries
      linkIndex := linkIndexOf c entries } := ⟨rfl, rfl, rfl⟩
  have hloading₁ : Loading c entries ids s₁ := hbase.same hsame₁
  obtain ⟨t, hensure, hsame, hbest, htipHash, hbits⟩ :=
    ensureGenesis_stored p env hH h hloading₁ hpath.getLast? htip
  have hcond : ¬ (s₁.heightMap = [] ∨ s₁.index = ∅) := by
    rintro (hnil | hempty)
    · rw [hloading₁.heightMap] at hnil
      exact h.ids_ne_nil hnil
    · rw [← hloading₁.index, hempty, Finmap.lookup_empty] at htip
      cases htip
  refine ⟨t, tip, tipHdr, ?_, hloading₁.same hsame, hsame₁.trans hsame, hbest, htipHash, hbits,
    htip, hpath⟩
  rw [loadChain, hload, Option.bind_some, if_neg hcond, Option.bind_some, hensure, Option.map_some]

theorem loadChain_ready (hH : CollisionFree c H) (h : StoredChain c H dir ids entries) :
    ∃ s, loadChain c p env dir = some (rebuildKnownBlockState p env s) ∧
      Ready c H dir ids entries s := by
  obtain ⟨t, tip, tipHdr, hload, hloading, ht, hbest, htipHash, hbits, htip, hpath⟩ :=
    loadChain_stored (p := p) hH h
  rw [SameHeaders] at ht
  have hstore : t.store = dir.store := by rw [ht]; rfl
  have hpool : t.blockPool = ∅ := by rw [ht]; rfl
  obtain ⟨honly, hheight⟩ := @cacheActive_only c env (List.range ids.length) t
  refine ⟨cacheActive c env t (List.range ids.length), hload,
    { loading := ⟨?_, ?_, ?_⟩
      pool := (cacheActive_stored h hstore hpool).1
      heightFiles := by rw [hheight, hstore]
      hashFiles := (cacheActive_stored h hstore hpool).2
      best := by rw [honly]; exact hbest
      tip := by rw [honly]; exact htipHash ▸ hpath
      tipBits := ?_
      files := by rw [honly, ht]; rfl
      utxo := by rw [honly, ht]; rfl
      checkpoint := by rw [honly, ht]; rfl }⟩
  · rw [honly]; exact hloading.index
  · rw [honly]; exact hloading.linkIndex
  · rw [honly]; exact hloading.heightMap
  · intro hdr hhdr
    rw [show (cacheActive c env t (List.range ids.length)).tipHash = tip by
      rw [honly]; exact htipHash, htip] at hhdr
    cases hhdr
    rw [honly]
    exact hbits

theorem Ready.indexOk (hH : CollisionFree c H) (h : StoredChain c H dir ids entries)
    (hs : Ready c H dir ids entries s) : s.IndexOk c H := by
  refine indexOk_of_entries hH h.nodup h.entry hs.loading fun {id b} hb => ?_
  obtain ⟨i, hi, hfile⟩ := hs.pool.mp hb
  obtain ⟨hmem, hid⟩ := h.heightFiles hfile
  obtain ⟨hdr, hhdr⟩ := h.lookup (List.mem_of_getElem? hi)
  obtain ⟨hid', hmem'⟩ := h.entry _ ((lookup_indexOf h.nodup).mp hhdr)
  have heq : hdr = b.header := hH.eq_of_powHash hmem' hmem (hid'.trans (hid id hi).symm)
  rw [hs.loading.index, hhdr, heq]

theorem Ready.active (hs : Ready c H dir ids entries s) : s.PathTo s.tipHash s.heightMap := by
  have hup : s.up = linkOf (indexOf entries) (linkIndexOf c entries) := by
    rw [up, hs.loading.index, hs.loading.linkIndex]
  rw [PathTo, hup, hs.loading.heightMap]
  exact hs.tip

theorem Ready.opened (hH : CollisionFree c H) (h : StoredChain c H dir ids entries)
    (hs : Ready c H dir ids entries s) : (rebuildKnownBlockState p env s).Opened c p H := by
  refine (rebuild_spec hs.active).opened (hs.indexOk hH h) ⟨?_, fun id b hb => (hs.hashFiles hb).1⟩
    hs.active ?_ ?_
  · intro k b hb
    rw [hs.heightFiles] at hb
    exact (h.heightFiles hb).1
  · have := List.length_pos_iff.mpr h.ids_ne_nil
    rw [hs.loading.heightMap, hs.best]
    omega
  · intro hdr hhdr
    rw [hs.loading.index] at hhdr
    exact hs.tipBits hhdr

/-- The files of a stored chain describe the state they are read into. -/
theorem Ready.described (h : StoredChain c H dir ids entries) (hs : Ready c H dir ids entries s) :
    (rebuildKnownBlockState p env s).Described c := by
  rw [(rebuild_spec hs.active).only]
  refine ⟨?_, ⟨entries, ?_, h.nodup, fun e he => ?_, fun id hid => ?_⟩, ?_,
    fun hb => (hs.hashFiles hb).2⟩
  · show s.files.index = some s.heightMap
    rw [hs.files, hs.loading.heightMap]
    exact h.index
  · show s.files.headers = some entries
    rw [hs.files]
    exact h.headers
  · show s.index.lookup e.1 = some e.2
    rw [hs.loading.index]
    exact (lookup_indexOf h.nodup).mpr he
  · have hid' : id ∈ s.heightMap := hid
    rw [hs.loading.heightMap] at hid'
    obtain ⟨hdr, hhdr⟩ := h.lookup hid'
    exact ⟨hdr, (lookup_indexOf h.nodup).mp hhdr⟩
  · intro i id hi
    have hi' : s.heightMap[i]? = some id := hi
    rw [hs.loading.heightMap] at hi'
    obtain ⟨b, hb⟩ := h.complete hi'
    exact ⟨b, hs.heightFiles ▸ hb, (h.heightFiles hb).2 id hi'⟩

theorem Ready.poolActive (hs : Ready c H dir ids entries s) :
    (rebuildKnownBlockState p env s).PoolActive := by
  rw [(rebuild_spec hs.active).only]
  intro id b
  show s.blockPool.lookup id = some b ↔ ∃ h, s.heightMap[h]? = some id ∧ s.store.load h = some b
  rw [hs.pool, hs.loading.heightMap]
  simp only [BlockStore.load, hs.heightFiles]

end

/-! ## An empty directory -/

/-- The state of a new chain before the maps are recomputed. -/
structure Founded (c : Crypto) (p : ChainParams) (env : Env) (s : Blockchain) : Prop where
  index : s.index = Finmap.insert ((Block.createGenesis c p).header.powHash c)
    (Block.createGenesis c p).header ∅
  linkIndex : s.linkIndex = Finmap.insert ((Block.createGenesis c p).header.hash c)
    ((Block.createGenesis c p).header.powHash c) ∅
  pool : s.blockPool = Finmap.insert ((Block.createGenesis c p).header.powHash c)
    (Block.createGenesis c p) ∅
  heightMap : s.heightMap = [(Block.createGenesis c p).header.powHash c]
  best : s.bestHeight = 0
  tip : s.tipHash = (Block.createGenesis c p).header.powHash c
  tipBits : s.tipBits = (Block.createGenesis c p).header.bits
  checkpoint : s.localCheckpoint = none
  mempool : s.mempool = Mempool.empty
  heightFiles : ∀ {i b}, s.store.heightFiles.lookup i = some b →
    i = 0 ∧ b = Block.createGenesis c p
  hashFiles : ∀ {id b}, s.store.hashFiles.lookup id = some b →
    id = (Block.createGenesis c p).header.powHash c ∧ b = Block.createGenesis c p
  chainstate : s.files.chainstate = none
  written : (∀ f, env.canWrite f = true) →
    s.store.heightFiles.lookup 0 = some (Block.createGenesis c p) ∧
    s.files.index = some s.heightMap ∧
    s.files.headers = some (env.visitOrder.visit s.index)

theorem loadChain_empty (c : Crypto) (p : ChainParams) (env : Env) : ∃ s, loadChain c p env DataDir.empty
    = some (rebuildKnownBlockState p env s) ∧ Founded c p env s := by
  have h : loadChain c p env DataDir.empty = some (rebuildKnownBlockState p env
      (startFrom c p env { initial p DataDir.empty with
        store := (BlockStore.empty.store env.canWrite 0 (Block.createGenesis c p)).1 }
        (Block.createGenesis c p))) := rfl
  refine ⟨_, h, ?_⟩
  generalize hg : Block.createGenesis c p = g
  generalize hbase : ({ initial p DataDir.empty with
    store := (BlockStore.empty.store env.canWrite 0 g).1 } : Blockchain) = base
  -- only the files depend on which writes succeed
  obtain ⟨files, hfiles, hstate, hindex⟩ : ∃ files, files.chainstate = base.files.chainstate ∧
      startFrom c p env base g = { base with
        bestHeight := 0
        tipHash := g.header.powHash c
        tipBits := g.header.bits
        heightMap := [g.header.powHash c]
        heightIndex := base.heightIndex.insert (g.header.powHash c) 0
        index := base.index.insert (g.header.powHash c) g.header
        linkIndex := base.linkIndex.insert (g.header.hash c) (g.header.powHash c)
        chainWork := base.chainWork.insert (g.header.powHash c) (blockWork p g.header.bits)
        blockPool := base.blockPool.insert (g.header.powHash c) g
        blockHeight := base.blockHeight.insert (g.header.powHash c) 0
        store := (base.store.storeByHash env.canWrite (g.header.powHash c) g).1
        utxo := (startFrom c p env base g).utxo
        files := files } ∧
      ((∀ f, env.canWrite f = true) → files.index = some [g.header.powHash c] ∧
        files.headers = some (env.visitOrder.visit
          (base.index.insert (g.header.powHash c) g.header))) := by
    unfold startFrom persistHeaders saveIndex
    split <;> split
    all_goals refine ⟨_, ?_, rfl, fun hw => ?_⟩
    all_goals first | rfl | simp_all
  have hfields : ∀ {h : Nat} {b}, (startFrom c p env base g).store.heightFiles.lookup h = some b →
      h = 0 ∧ b = g := by
    intro h b hb
    rw [hstate, ← hbase] at hb
    simp only [BlockStore.storeByHash_heightFiles, BlockStore.store] at hb
    split at hb
    · simp only [BlockStore.empty, FinMap.lookup_insert_ite, Finmap.lookup_empty] at hb
      split at hb
      · next heq => exact ⟨heq, (Option.some.inj hb).symm⟩
      · cases hb
    · cases hb
  constructor
  · rw [hstate, ← hbase, hg]; rfl
  · rw [hstate, ← hbase, hg]; rfl
  · rw [hstate, ← hbase, hg]; rfl
  · rw [hstate, hg]
  · rw [hstate]
  · rw [hstate, hg]
  · rw [hstate, hg]
  · rw [hstate, ← hbase]; rfl
  · rw [hstate, ← hbase]; rfl
  · rw [hg]; exact hfields
  · intro id b hb
    rw [hstate, ← hbase] at hb
    simp only [BlockStore.storeByHash, BlockStore.store_hashFiles] at hb
    rw [hg]
    split at hb
    · simp only [FinMap.lookup_insert_ite] at hb
      split at hb
      · next heq => exact ⟨heq, (Option.some.inj hb).symm⟩
      · rw [show BlockStore.empty.hashFiles = ∅ from rfl, Finmap.lookup_empty] at hb
        cases hb
    · rw [show ((BlockStore.store env.canWrite BlockStore.empty 0 g).1, false).1.hashFiles = ∅
        from BlockStore.store_hashFiles _ _ _ _, Finmap.lookup_empty] at hb
      cases hb
  · rw [hstate]
    show files.chainstate = none
    rw [hfiles, ← hbase]
    rfl
  · intro hw
    obtain ⟨hi, hh⟩ := hindex hw
    refine ⟨?_, ?_, ?_⟩
    · rw [hstate, ← hbase]
      simp [BlockStore.storeByHash_heightFiles, BlockStore.store, hw, hg]
    · rw [hstate]; exact hi
    · rw [hstate]; exact hh

theorem createGenesis_prev : (Block.createGenesis c p).header.prevBlockHash = 0 := rfl

theorem Founded.lookup (hs : Founded c p env s) {id : Hash512} {hdr : BlockHeader} :
    s.index.lookup id = some hdr ↔ id = (Block.createGenesis c p).header.powHash c ∧
      hdr = (Block.createGenesis c p).header := by
  rw [hs.index, FinMap.lookup_insert_ite]
  split
  · next heq => simp [heq, eq_comm]
  · next hne => simp [hne]

theorem Founded.indexOk (hs : Founded c p env s)
    (hg : (Block.createGenesis c p).header ∈ H) : s.IndexOk c H := by
  refine ⟨?_, ?_, ?_, ?_⟩
  · intro id hdr hid
    obtain ⟨rfl, rfl⟩ := hs.lookup.mp hid
    rfl
  · intro id hdr hid
    obtain ⟨rfl, rfl⟩ := hs.lookup.mp hid
    exact hg
  · intro link id
    rw [hs.linkIndex, FinMap.lookup_insert_ite]
    constructor
    · intro h
      split at h
      · next heq =>
          cases h
          exact ⟨_, hs.lookup.mpr ⟨rfl, rfl⟩, heq.symm⟩
      · cases h
    · rintro ⟨hdr, hid, rfl⟩
      obtain ⟨rfl, rfl⟩ := hs.lookup.mp hid
      rw [if_pos rfl]
  · intro id b hb
    rw [hs.pool, FinMap.lookup_insert_ite] at hb
    split at hb
    · next heq =>
        cases hb
        exact hs.lookup.mpr ⟨heq, rfl⟩
    · cases hb

theorem Founded.active (hs : Founded c p env s) : s.PathTo s.tipHash s.heightMap := by
  rw [hs.heightMap, hs.tip]
  exact .root (linkOf_root_iff.mpr ⟨_, hs.lookup.mpr ⟨rfl, rfl⟩, createGenesis_prev⟩)

theorem Founded.opened (hs : Founded c p env s)
    (hg : (Block.createGenesis c p).header ∈ H) :
    (rebuildKnownBlockState p env s).Opened c p H := by
  refine (rebuild_spec hs.active).opened (hs.indexOk hg) ⟨?_, ?_⟩ hs.active ?_ ?_
  · intro k b hb
    rw [(hs.heightFiles hb).2]
    exact hg
  · intro id b hb
    rw [(hs.hashFiles hb).2]
    exact hg
  · rw [hs.heightMap, hs.best]
    rfl
  · intro hdr hhdr
    rw [hs.tipBits, (hs.lookup.mp hhdr).2]

end Blockchain

end Cryptex
