import Cryptex.Heights

/-!
# Looking blocks up by hash

`get_block_by_hash` takes a block from the pool, from the height file of its
active height or from its by-hash file. A block that is not in the pool, but
has got a height without being active, is read from a height file that
belongs to another block. `Reachable.looksUp` says which runs never come to
that.
-/

namespace Cryptex

open Forest

namespace Blockchain

variable {c : Crypto} {p : ChainParams} {env : Env} {skip : Bool} {H : Set BlockHeader}
  {s s' : Blockchain} {blk : Block}

/-! ## The property and its condition -/

/-- A block that is found has the hash asked for, a block that was stored
under its id is found, and the blocks of a path are those of its ids. -/
structure LooksUp (c : Crypto) (s : Blockchain) : Prop where
  own : ∀ x b, s.getBlockByHash x = some b →
    x = (b.header.powHash c).toNat ∨ x = (b.header.hash c).toNat
  found : ∀ id b, s.store.loadByHash id = some b →
    ∃ b', s.getBlockByHash id.toNat = some b' ∧ b'.header.powHash c = id
  path : ∀ tip path, s.buildPathToGenesis tip = some path → ∀ id ∈ path, ∀ b,
    s.getBlockByHash id.toNat = some b → b.header.powHash c = id

/-- The file of a height holds the block with the id, or there is neither
this file nor that of the id. -/
def Holds (c : Crypto) (st : BlockStore) (id : Hash512) (height : Nat) : Prop :=
  (∃ b, st.load height = some b ∧ b.header.powHash c = id) ∨
    (st.load height = none ∧ st.loadByHash id = none)

/-- An activation gets as far as writing the file of a height. -/
structure Reaches (env : Env) (path : List Hash512) (height : Nat) : Prop where
  lt : height < path.length
  heights : ∀ j, j ≤ height → env.canWrite (.height j) = true
  ids : ∀ (j : Nat) id, j < height → path[j]? = some id → env.canWrite (.byHash id) = true

/-- A candidate whose files cannot all be written. -/
structure Fails (c : Crypto) (p : ChainParams) (env : Env) (skip : Bool) (s : Blockchain)
    (blk : Block) (path : List Hash512) : Prop where
  check : s.statelessCheck c p env skip blk = none
  candidate : Candidate c (s.cacheBlock c env blk) blk path
  valid : (s.cacheBlock c env blk).PathValid c p env skip path
  heavier : s.pathWork p s.heightMap < (s.cacheBlock c env blk).pathWork p path
  allowed : s.PathAllowed env path
  unwritable : ¬ PathWritable env path

section

variable (c : Crypto) (p : ChainParams) (H : Set BlockHeader)

/-- When a block is refused, every connected id off the chain that is not
behind it is in the pool or held by the files. When an activation fails, the
height files it has overwritten belong to blocks of the pool or of its path. -/
structure PassLegible (env : Env) (skip : Bool) (s : Blockchain) (blk : Block) : Prop where
  refused : ∀ path, s.Refuses c p env skip blk path → ∀ id l, s.PathTo id l → 1 < l.length →
    blk.header.powHash c ∉ l → s.blockPool.lookup id = none → id ∉ s.heightMap →
    Holds c s.store id (l.length - 1)
  failed : ∀ path, s.Fails c p env skip blk path → ∀ id k, s.heightIndex.lookup id = some k →
    s.blockPool.lookup id = none → Reaches env path k → path[k]? = some id

/-- The connected ids of a stored chain, those behind its valid part aside,
are on the chain or held by the files that are kept, and every by-hash file
belongs to a stored header. -/
structure OpenLegible (env : Env) (dir : DataDir) : Prop where
  held : ∀ s, loadChain c p env dir = some s → ∀ id l, s.PathTo id l → 1 < l.length →
    (loadedLength c p env s ≠ 0 → ∀ j ∈ l, j ∉ s.heightMap.drop (loadedLength c p env s)) →
    id ∉ s.heightMap →
    Holds c (keptStore dir.store (loadedLength c p env s) s.heightMap.length) id (l.length - 1)
  known : ∀ s, loadChain c p env dir = some s → ∀ id b, dir.store.loadByHash id = some b →
    ∃ hdr, s.index.lookup id = some hdr

/-- Runs in which no height is given to a block that its file does not hold. -/
def Rules.legible : Rules where
  start := fun _ => True
  opens := fun env dir => CanOpen c p H env dir ∧ OpenLegible c p env dir
  pass := PassLegible c p

end

/-! ## The invariant -/

/-- What is looked up by height is held by the files, and the by-hash files
belong to known headers. -/
structure Legible (c : Crypto) (s : Blockchain) : Prop where
  height : ∀ id k, s.blockPool.lookup id = none → s.heightIndex.lookup id = some k →
    Holds c s.store id k
  file : ∀ id b, s.store.loadByHash id = some b →
    b.header.powHash c = id ∧ ∃ hdr, s.index.lookup id = some hdr

/-- A known id is found under its own hash. -/
theorem Legible.getBlockById (h : s.Legible c) (hs : s.IndexOk c H) {id : Hash512} {b : Block}
    (hb : s.getBlockById id = some b) : b.header.powHash c = id := by
  unfold Blockchain.getBlockById at hb
  cases hpool : s.blockPool.lookup id with
  | some b' =>
      rw [hpool] at hb
      cases hb
      exact hs.id_eq (hs.pool hpool)
  | none =>
      simp only [hpool] at hb
      cases hk : s.heightIndex.lookup id with
      | some k =>
          simp only [hk] at hb
          rcases h.height id k hpool hk with ⟨b', hb', hid⟩ | ⟨hnone, -⟩
          · rw [hb] at hb'
            cases hb'
            exact hid
          · rw [hb] at hnone
            cases hnone
      | none =>
          simp only [hk] at hb
          exact (h.file id b hb).1

theorem Legible.lookups_exact (hH : CollisionFree c H) (hs : s.Coherent c p H) (h : s.Legible c) :
    s.LooksUp c := by
  have hfound : ∀ {id : Hash512} {hdr b}, s.index.lookup id = some hdr →
      s.getBlockByHash id.toNat = some b → b.header.powHash c = id := by
    intro id hdr b hid hb
    rw [getBlockByHash_id hid] at hb
    exact h.getBlockById hs.index hb
  refine ⟨fun x b hb => ?_, fun id b hb => ?_, fun tip path hpath id hid b hb => ?_⟩
  · unfold getBlockByHash at hb
    cases hx : s.canonicalBlockIdFor x with
    | none => simp only [hx] at hb; cases hb
    | some id =>
        simp only [hx] at hb
        obtain ⟨hdr, hhdr, hcase⟩ := (canonicalBlockIdFor_iff hH hs.index).mp hx
        have hheader : b.header = hdr := by
          refine hH.eq_of_powHash (hs.getBlockById_mem hb) (hs.index.mem hhdr) ?_
          rw [h.getBlockById hs.index hb, hs.index.id_eq hhdr]
        rw [hheader]
        exact hcase
  · obtain ⟨hid, hdr, hhdr⟩ := h.file id b hb
    suffices hsome : ∃ b', s.getBlockById id = some b' by
      obtain ⟨b', hb'⟩ := hsome
      exact ⟨b', by rw [getBlockByHash_id hhdr, hb'], h.getBlockById hs.index hb'⟩
    unfold Blockchain.getBlockById
    cases hpool : s.blockPool.lookup id with
    | some b' => exact ⟨b', rfl⟩
    | none =>
        cases hk : s.heightIndex.lookup id with
        | none => exact ⟨b, hb⟩
        | some k =>
            rcases h.height id k hpool hk with ⟨b', hb', -⟩ | ⟨-, hnone⟩
            · exact ⟨b', hb'⟩
            · rw [hb] at hnone
              cases hnone
  · obtain ⟨hdr, hhdr⟩ := PathTo.lookup (buildPathToGenesis_iff.mp hpath) hid
    exact hfound hhdr hb

/-! ## Files that are written in part -/

/-- Writing the blocks of a path from height `i` on reaches the `j`-th of them. -/
def WritesTo (w : Writable) (i : Nat) (entries : List (Hash512 × Block)) (j : Nat) : Prop :=
  (∀ m, m ≤ j → w (.height (i + m)) = true) ∧
    ∀ (m : Nat) e, m < j → entries[m]? = some e → w (.byHash e.1) = true

theorem WritesTo.tail {w : Writable} {i j : Nat} {e : Hash512 × Block}
    {rest : List (Hash512 × Block)} (h : WritesTo w i (e :: rest) (j + 1)) :
    WritesTo w (i + 1) rest j := by
  refine ⟨fun m hm => ?_, fun m e' hm he => ?_⟩
  · have := h.1 (m + 1) (by omega)
    rw [show i + 1 + m = i + (m + 1) by omega]
    exact this
  · exact h.2 (m + 1) e' (by omega) (by rw [List.getElem?_cons_succ]; exact he)

theorem WritesTo.cons {w : Writable} {i j : Nat} {e : Hash512 × Block}
    {rest : List (Hash512 × Block)} (hi : w (.height i) = true) (he : w (.byHash e.1) = true)
    (h : WritesTo w (i + 1) rest j) : WritesTo w i (e :: rest) (j + 1) := by
  refine ⟨fun m hm => ?_, fun m e' hm he' => ?_⟩
  · cases m with
    | zero => exact hi
    | succ m =>
        have := h.1 m (by omega)
        rw [show i + (m + 1) = i + 1 + m by omega]
        exact this
  · cases m with
    | zero =>
        rw [List.getElem?_cons_zero, Option.some.injEq] at he'
        rw [← he']
        exact he
    | succ m =>
        rw [List.getElem?_cons_succ] at he'
        exact h.2 m e' (by omega) he'

/-- A height file holds the block of the path if the writing got there, and
what it held before otherwise. -/
theorem writePath_height_cases {w : Writable} : ∀ (entries : List (Hash512 × Block))
    (st : BlockStore) (i k : Nat),
    (∃ j e, k = i + j ∧ entries[j]? = some e ∧ WritesTo w i entries j ∧
        (writePath w st i entries).1.load k = some e.2) ∨
      ((∀ j e, k = i + j → entries[j]? = some e → ¬ WritesTo w i entries j) ∧
        (writePath w st i entries).1.load k = st.load k)
  | [], st, i, k => Or.inr ⟨fun j e _ he => by simp at he, rfl⟩
  | (id, blk) :: rest, st, i, k => by
      have hstop : ∀ {j}, ¬ (w (.height i) = true ∧ (0 < j → w (.byHash id) = true)) →
          ¬ WritesTo w i ((id, blk) :: rest) j := by
        intro j hnot h
        exact hnot ⟨h.1 0 (Nat.zero_le j), fun hj => h.2 0 (id, blk) hj rfl⟩
      rw [writePath, BlockStore.store]
      by_cases hheight : w (.height i) = true
      · rw [if_pos hheight]
        simp only [BlockStore.storeByHash]
        by_cases hfile : w (.byHash id) = true
        · rw [if_pos hfile]
          simp only
          rcases writePath_height_cases rest
              ⟨st.heightFiles.insert i blk, st.hashFiles.insert id blk⟩ (i + 1) k with
            ⟨j, e, hk, he, hto, hload⟩ | ⟨hnot, hload⟩
          · refine Or.inl ⟨j + 1, e, by omega, ?_, hto.cons hheight hfile, hload⟩
            rw [List.getElem?_cons_succ]
            exact he
          · by_cases hki : k = i
            · refine Or.inl ⟨0, (id, blk), by omega, rfl, ⟨fun m hm => ?_, fun m _ hm => ?_⟩, ?_⟩
              · rw [Nat.le_zero.mp hm]
                exact hheight
              · omega
              · rw [hload, hki]
                exact Finmap.lookup_insert _
            · refine Or.inr ⟨fun j e hk he hto => ?_, ?_⟩
              · cases j with
                | zero => omega
                | succ j =>
                    rw [List.getElem?_cons_succ] at he
                    exact hnot j e (by omega) he hto.tail
              · rw [hload]
                exact Finmap.lookup_insert_of_ne _ hki
        · rw [if_neg hfile]
          simp only
          by_cases hki : k = i
          · refine Or.inl ⟨0, (id, blk), by omega, rfl, ⟨fun m hm => ?_, fun m _ hm => ?_⟩, ?_⟩
            · rw [Nat.le_zero.mp hm]
              exact hheight
            · omega
            · rw [hki]
              exact Finmap.lookup_insert _
          · refine Or.inr ⟨fun j e hk _ => hstop fun h => hfile (h.2 (by omega)), ?_⟩
            exact Finmap.lookup_insert_of_ne _ hki
      · rw [if_neg hheight]
        exact Or.inr ⟨fun j e _ _ => hstop fun h => hheight h.1, rfl⟩

/-- A by-hash file that is not as before holds a block of the path whose
height file was written. -/
theorem writePath_hash_cases {w : Writable} (id : Hash512) : ∀ (entries : List (Hash512 × Block))
    (st : BlockStore) (i : Nat),
    (∃ (j : Nat) (e : Hash512 × Block), entries[j]? = some e ∧ e.1 = id ∧ WritesTo w i entries j ∧
        (writePath w st i entries).1.loadByHash id = some e.2) ∨
      (writePath w st i entries).1.loadByHash id = st.loadByHash id
  | [], _, _ => Or.inr rfl
  | (id', blk) :: rest, st, i => by
      rw [writePath, BlockStore.store]
      by_cases hheight : w (.height i) = true
      · rw [if_pos hheight]
        simp only [BlockStore.storeByHash]
        by_cases hfile : w (.byHash id') = true
        · rw [if_pos hfile]
          simp only
          rcases writePath_hash_cases id rest
              ⟨st.heightFiles.insert i blk, st.hashFiles.insert id' blk⟩ (i + 1) with
            ⟨j, e, he, hid, hto, hload⟩ | hload
          · refine Or.inl ⟨j + 1, e, ?_, hid, hto.cons hheight hfile, hload⟩
            rw [List.getElem?_cons_succ]
            exact he
          · by_cases heq : id = id'
            · refine Or.inl ⟨0, (id', blk), rfl, heq.symm, ⟨fun m hm => ?_, fun m _ hm => ?_⟩, ?_⟩
              · rw [Nat.le_zero.mp hm]
                exact hheight
              · omega
              · rw [hload, heq]
                exact Finmap.lookup_insert _
            · right
              rw [hload]
              exact Finmap.lookup_insert_of_ne _ heq
        · rw [if_neg hfile]
          exact Or.inr rfl
      · rw [if_neg hheight]
        exact Or.inr rfl

theorem writesTo_iff {env : Env} {path : List Hash512} {blocks : List Block}
    (hlen : path.length = blocks.length) {k : Nat} (hk : k < path.length) :
    WritesTo env.canWrite 0 (path.zip blocks) k ↔ Reaches env path k := by
  constructor
  · rintro ⟨hheights, hids⟩
    refine ⟨hk, fun j hj => ?_, fun j id hj hid => ?_⟩
    · have := hheights j hj
      rwa [Nat.zero_add] at this
    · have hlt := (List.getElem?_eq_some_iff.mp hid).1
      have hb := List.getElem?_eq_getElem (show j < blocks.length by omega)
      exact hids j (id, blocks[j]) hj (List.getElem?_zip_eq_some.mpr ⟨hid, hb⟩)
  · rintro ⟨-, hheights, hids⟩
    refine ⟨fun m hm => ?_, fun m e hm he => ?_⟩
    · rw [Nat.zero_add]
      exact hheights m hm
    · exact hids m e.1 hm (List.getElem?_zip_eq_some.mp he).1

/-! ## Passes -/

theorem storeByHash_load (w : Writable) (st : BlockStore) (id id' : Hash512) (b : Block) :
    (st.storeByHash w id b).1.loadByHash id' = some b ∧ id' = id ∨
      (st.storeByHash w id b).1.loadByHash id' = st.loadByHash id' := by
  unfold BlockStore.storeByHash
  split
  · by_cases h : id' = id
    · left
      refine ⟨?_, h⟩
      rw [h]
      exact Finmap.lookup_insert _
    · right
      exact Finmap.lookup_insert_of_ne _ h
  · exact Or.inr rfl

/-- What is not in the pool once a block is cached was not there before, and
is another block. -/
theorem cacheBlock_pool_none {id : Hash512}
    (h : (s.cacheBlock c env blk).blockPool.lookup id = none) :
    s.blockPool.lookup id = none ∧ id ≠ blk.header.powHash c := by
  have hself : ∃ b, (s.cacheBlock c env blk).blockPool.lookup (blk.header.powHash c) = some b :=
    cacheBlock_pool_self s blk
  have hne : id ≠ blk.header.powHash c := by
    rintro rfl
    obtain ⟨b, hb⟩ := hself
    rw [h] at hb
    cases hb
  refine ⟨?_, hne⟩
  rw [Blockchain.cacheBlock] at h
  simp only at h
  split at h
  · exact h
  · rw [FinMap.lookup_insert_ite, if_neg hne] at h
    exact h

theorem Holds.of_store {st st' : BlockStore} {id : Hash512} {k : Nat} (h : Holds c st id k)
    (hload : st'.load k = st.load k) (hfile : st'.loadByHash id = st.loadByHash id) :
    Holds c st' id k := by
  rw [Holds, hload, hfile]
  exact h

theorem cacheBlock_store_other {id : Hash512} (hne : id ≠ blk.header.powHash c) :
    (s.cacheBlock c env blk).store.loadByHash id = s.store.loadByHash id := by
  rcases storeByHash_load env.canWrite s.store (blk.header.powHash c) id blk with ⟨-, heq⟩ | hold
  · exact absurd heq hne
  · exact hold

theorem cacheBlock_store_load (k : Nat) :
    (s.cacheBlock c env blk).store.load k = s.store.load k := by
  rw [Blockchain.cacheBlock, BlockStore.load, BlockStore.storeByHash_heightFiles]
  rfl

theorem Legible.cacheBlock (hH : CollisionFree c H) (hs : s.Coherent c p H) (hb : blk.header ∈ H)
    (h : s.Legible c) : (s.cacheBlock c env blk).Legible c := by
  constructor
  · intro id k hpool hk
    obtain ⟨hold, hne⟩ := cacheBlock_pool_none hpool
    exact (h.height id k hold hk).of_store (cacheBlock_store_load k) (cacheBlock_store_other hne)
  · intro id b hfile
    rcases storeByHash_load env.canWrite s.store (blk.header.powHash c) id blk with ⟨hnew, rfl⟩ | hold
    · have hself : (s.cacheBlock c env blk).store.loadByHash (blk.header.powHash c) = some blk := hnew
      rw [hself] at hfile
      cases hfile
      exact ⟨rfl, blk.header, cacheBlock_lookup_self hH hs.index hb⟩
    · have hsame : (s.cacheBlock c env blk).store.loadByHash id = s.store.loadByHash id := hold
      rw [hsame] at hfile
      obtain ⟨hid, hdr, hhdr⟩ := h.file id b hfile
      exact ⟨hid, hdr, cacheBlock_lookup_mono hH hs.index hb hhdr⟩

/-- Neither pool, heights, files nor headers are touched. -/
theorem Legible.congr (h : s.Legible c) (hpool : s'.blockPool = s.blockPool)
    (hheight : s'.heightIndex = s.heightIndex) (hstore : s'.store = s.store)
    (hindex : s'.index = s.index) : s'.Legible c := by
  constructor
  · rw [hpool, hheight, hstore]
    exact h.height
  · rw [hstore, hindex]
    exact h.file

/-- Recomputing the maps after a refusal keeps the state legible when what
gets a height is held. -/
theorem Legible.refusal {root : Hash512} (hs : s.Coherent c p H) (h : s.Legible c)
    (hfresh : s.chainWork.lookup root = none) (hleft : Refusal c p H s root s')
    (hrule : ∀ id l, s.PathTo id l → 1 < l.length → root ∉ l → s.blockPool.lookup id = none →
      id ∉ s.heightMap → Holds c s.store id (l.length - 1)) : s'.Legible c := by
  constructor
  · intro id k hpool hk
    have hconnected : ∃ l, s.PathTo id l ∧ root ∉ l := by
      rcases hleft.heightIndex.mp hk with hmap | ⟨l, hl, hroot, -⟩
      · refine ⟨_, Forest.PathTo.take hs.active hmap, fun hmem => ?_⟩
        obtain ⟨w, hw⟩ := hs.activeWork (List.mem_of_mem_take hmem)
        rw [hfresh] at hw
        cases hw
      · exact ⟨l, hl, hroot⟩
    obtain ⟨l, hl, hroot⟩ := hconnected
    have hold : s.blockPool.lookup id = none := by
      refine Option.eq_none_iff_forall_ne_some.mpr fun b hb => ?_
      rw [(hleft.pool hl hroot).mpr hb] at hpool
      cases hpool
    have hheld : Holds c s.store id k := by
      rcases hleft.heightIndex.mp hk with hmap | ⟨l', hl', -, hlt, hlen⟩
      · exact h.height id k hold (hs.activeHeight hmap)
      · by_cases hid : id ∈ s.heightMap
        · exact h.height id k hold (hs.activeHeight (hs.active_at hid hl' hlen))
        · have := hrule id l hl (by rw [hl.unique hl']; exact hlt) hroot hold hid
          rw [hl.unique hl', hlen] at this
          exact this
    refine hheld.of_store ?_ (hleft.hashFiles hl hroot)
    rw [BlockStore.load, hleft.heightFiles]
    rfl
  · intro id b hb
    obtain ⟨hid, hdr, hhdr⟩ := h.file id b (hleft.hashSub hb)
    exact ⟨hid, hdr, hleft.hashKnown hb hhdr⟩

/-- A failed activation keeps the state legible when what it overwrites is
not looked up by height, or is the same block. -/
theorem Legible.failed (hH : CollisionFree c H) (hs : s.Coherent c p H) (h : s.Legible c)
    {path : List Hash512} (hcand : Candidate c s blk path)
    (hpool : ∃ b, s.blockPool.lookup (blk.header.powHash c) = some b)
    (hvalid : s.PathValid c p env skip path) {utxo : UTXOSet} {bits : UInt32}
    (hact : activatePath p env s path utxo bits = (false, s'))
    (hrule : ∀ id k, s.heightIndex.lookup id = some k → s.blockPool.lookup id = none →
      Reaches env path k → path[k]? = some id) : s'.Legible c := by
  obtain ⟨b₀, hb₀⟩ := hpool
  obtain ⟨blocks, hblocks, hheaders, -⟩ := hs.blocks_of_valid hH hcand.linked hb₀ hvalid
  have hlen := hblocks.length_eq
  -- the header of the block of an id on the path
  have hheader : ∀ {j : Nat} {e : Hash512 × Block}, (path.zip blocks)[j]? = some e →
      s.index.lookup e.1 = some e.2.header := by
    intro j e he
    exact (List.forall₂_iff_zip.mp hheaders).2 (List.mem_of_getElem? he)
  rcases activatePath_false hact with rfl | ⟨blocks', store, hm, hwrite, rfl⟩
  · exact h
  · rw [hblocks.mapM_eq] at hm
    cases hm
    have hstore : (writePath env.canWrite s.store 0 (path.zip blocks)).1 = store := by rw [hwrite]
    constructor
    · intro id k hnone hk
      have hnone' : s.blockPool.lookup id = none := hnone
      have hk' : s.heightIndex.lookup id = some k := hk
      show Holds c store id k
      obtain ⟨l, w, hl, hlenL, -⟩ := hs.heightIndex hk'
      have hzip : ∀ {j : Nat} {e : Hash512 × Block}, (path.zip blocks)[j]? = some e →
          WritesTo env.canWrite 0 (path.zip blocks) j → Reaches env path j := by
        intro j e he hto
        have hj := (List.getElem?_eq_some_iff.mp (List.getElem?_zip_eq_some.mp he).1).1
        exact (writesTo_iff hlen hj).mp hto
      rcases writePath_height_cases (path.zip blocks) s.store 0 k with
        ⟨j, e, hkj, he, hto, hload⟩ | ⟨hnot, hload⟩
      · rw [Nat.zero_add] at hkj
        subst hkj
        have hid : e.1 = id := by
          have hget := hrule id k hk' hnone' (hzip he hto)
          rw [(List.getElem?_zip_eq_some.mp he).1] at hget
          exact Option.some.inj hget
        refine Or.inl ⟨e.2, by rw [← hstore]; exact hload, ?_⟩
        rw [← hid]
        exact hs.index.id_eq (hheader he)
      · refine (h.height id k hnone' hk').of_store (by rw [← hstore]; exact hload) ?_
        rcases writePath_hash_cases id (path.zip blocks) s.store 0 with
          ⟨j, e, he, hid, hto, -⟩ | hsame
        · -- the by-hash file follows the height file, which was not written
          have hpos := (Forest.PathTo.take hcand.linked
            (hid ▸ (List.getElem?_zip_eq_some.mp he).1)).unique hl
          have hj := (List.getElem?_eq_some_iff.mp (List.getElem?_zip_eq_some.mp he).1).1
          have hjk : j = k := by
            have := congrArg List.length hpos
            rw [List.length_take] at this
            omega
          exact absurd hto (hnot j e (by omega) he)
        · rw [← hstore]
          exact hsame
    · intro id b hb
      have hb' : store.loadByHash id = some b := hb
      rw [← hstore] at hb'
      rcases writePath_hash_cases id (path.zip blocks) s.store 0 with
        ⟨j, e, he, hid, -, hload⟩ | hsame
      · rw [hload] at hb'
        cases hb'
        rw [← hid]
        exact ⟨hs.index.id_eq (hheader he), _, hheader he⟩
      · rw [hsame] at hb'
        exact h.file id b hb'

/-- After a switch every height is held by its file. -/
theorem Legible.switched (hH : CollisionFree c H) (hs : s.Coherent c p H) (h : s.Legible c)
    {path : List Hash512} (hcand : Candidate c s blk path)
    (hpool : ∃ b, s.blockPool.lookup (blk.header.powHash c) = some b)
    (hvalid : s.PathValid c p env skip path) {utxo : UTXOSet} {bits : UInt32}
    (hact : activatePath p env s path utxo bits = (true, s')) : s'.Legible c := by
  obtain ⟨b₀, hb₀⟩ := hpool
  obtain ⟨blocks, hblocks, hheaders, -⟩ := hs.blocks_of_valid hH hcand.linked hb₀ hvalid
  have hlen := hblocks.length_eq
  have hnd := Forest.PathTo.nodup hcand.linked
  have hdone := activatePath_activated hnd hblocks hact
  have hheader : ∀ {id b}, (id, b) ∈ path.zip blocks → s.index.lookup id = some b.header :=
    fun he => (List.forall₂_iff_zip.mp hheaders).2 he
  constructor
  · intro id k _ hk
    rw [hdone.only] at hk
    have hget : path[k]? = some id := (lookup_insertAll_zipIdx hnd).mp hk
    have hlt := (List.getElem?_eq_some_iff.mp hget).1
    have hb := List.getElem?_eq_getElem (show k < blocks.length by omega)
    refine Or.inl ⟨_, (hdone.load hlt).trans hb, ?_⟩
    exact hs.index.id_eq (hheader (List.mem_of_getElem? (List.getElem?_zip_eq_some.mpr ⟨hget, hb⟩)))
  · intro id b hb
    have hindex : s'.index = s.index := by rw [hdone.only]; rfl
    rw [hindex]
    rcases hdone.hashSub hb with he | hold
    · exact ⟨hs.index.id_eq (hheader he), _, hheader he⟩
    · exact h.file id b hold

theorem Legible.acceptOne (hH : CollisionFree c H) (hs : s.Coherent c p H) (hb : blk.header ∈ H)
    (h : s.Legible c) (hrule : PassLegible c p env skip s blk) :
    (s.acceptOne c p env skip blk).2.Legible c := by
  have hcoh : (s.cacheBlock c env blk).Coherent c p H := hs.cacheBlock hH hb
  have hcached : (s.cacheBlock c env blk).Legible c := h.cacheBlock hH hs hb
  have hself : ∃ b, (s.cacheBlock c env blk).blockPool.lookup (blk.header.powHash c) = some b :=
    cacheBlock_pool_self s blk
  have hout : Outcome c p env skip s blk (s.acceptOne c p env skip blk).1
      (s.acceptOne c p env skip blk).2 := acceptOne_outcome hH hs hb
  generalize s.acceptOne c p env skip blk = res at hout
  obtain ⟨v, s'⟩ := res
  simp only at hout ⊢
  cases hout with
  | rejected _ _ => exact h
  | processed _ _ => exact hcached
  | orphan _ _ _ _ => exact hcached.congr rfl rfl rfl rfl
  | side _ _ _ _ => exact hcached.congr rfl rfl rfl rfl
  | refused _ _ _ _ _ _ => exact hcached
  | invalid hcheck hcand hinvalid =>
      refine hcached.refusal hcoh hcand.fresh (hcoh.refusal env hH hcand) ?_
      intro id l hl hlt hroot hpool hid
      have hold : s.PathTo id l := cacheBlock_pathTo_inv hH hs.index hb hl hroot
      obtain ⟨hpool', hne⟩ := cacheBlock_pool_none hpool
      exact (hrule.refused _ ⟨hcheck, hcand, hinvalid⟩ id l hold hlt hroot hpool' hid).of_store
        (cacheBlock_store_load _) (cacheBlock_store_other hne)
  | @failed path _ hcheck hcand hvalid hlt hallowed hact =>
      refine hcached.failed hH hcoh hcand hself hvalid hact fun id k hk hpool hreach => ?_
      have hfails : s.Fails c p env skip blk path :=
        ⟨hcheck, hcand, hvalid, hlt, hallowed, (failed_held hcand hvalid hact).1⟩
      exact hrule.failed path hfails id k hk (cacheBlock_pool_none hpool).1 hreach
  | switched _ hcand hvalid _ _ hact => exact hcached.switched hH hcoh hcand hself hvalid hact

/-! ## Openings -/

/-- A new chain looks up its genesis only. -/
theorem openDir_empty_legible (hg : (Block.createGenesis c p).header ∈ H)
    (h : openDir c p env .empty = some s) :
    s.Legible c := by
  obtain ⟨f, hf, hframe, hcoh, hrebuilt⟩ := openDir_empty hg h
  have hstate : Frame (rebuildKnownBlockState p env f)
      (loadState c env (rebuildKnownBlockState p env f)) := frame_loadState
  have hspec : Rebuilt p f (rebuildKnownBlockState p env f) := rebuild_spec hf.active
  generalize loadState c env (rebuildKnownBlockState p env f) = t at hframe hstate
  obtain ⟨hpoolT, hindexT, hfilesT⟩ : (repairHeightFilesIfNeeded env t).2.blockPool = t.blockPool ∧
      (repairHeightFilesIfNeeded env t).2.index = t.index ∧
      (repairHeightFilesIfNeeded env t).2.store.hashFiles = t.store.hashFiles := by
    have hfiles : (restoreHeightFiles env t.store 0 t.heightMap).1.hashFiles = t.store.hashFiles :=
      (restoreHeightFiles_sub (P := fun _ => True) env t.heightMap 0 (fun _ _ _ => trivial)
        (fun _ _ _ => trivial)).2
    unfold repairHeightFilesIfNeeded
    generalize restoreHeightFiles env t.store 0 t.heightMap = res at hfiles
    obtain ⟨store, repaired⟩ := res
    simp only
    split
    · exact ⟨rfl, rfl, hfiles⟩
    · exact ⟨rfl, rfl, hfiles⟩
  have hpool : s.blockPool = f.blockPool := by
    rw [hframe.only, hpoolT, hstate.only, hspec.only]
  have hindex : s.index = f.index := by
    rw [hframe.only, hindexT, hstate.only, hspec.only]
  have hfiles : s.store.hashFiles = f.store.hashFiles := by
    rw [hframe.store, hfilesT, hstate.only, hspec.only]
  constructor
  · intro id k hnone hk
    obtain ⟨l, w, hl, -, -⟩ := hcoh.heightIndex hk
    obtain ⟨hdr, hhdr⟩ := PathTo.lookup hl (Forest.PathTo.mem_self hl)
    rw [hindex] at hhdr
    obtain ⟨rfl, -⟩ := hf.lookup.mp hhdr
    rw [hpool, hf.pool, Finmap.lookup_insert] at hnone
    cases hnone
  · intro id b hb
    have hb' : s.store.hashFiles.lookup id = some b := hb
    rw [hfiles] at hb'
    obtain ⟨rfl, rfl⟩ := hf.hashFiles hb'
    refine ⟨rfl, (Block.createGenesis c p).header, ?_⟩
    rw [hindex]
    exact hf.lookup.mpr ⟨rfl, rfl⟩

theorem openDir_legible (hH : CollisionFree c H) {dir : DataDir} (hdir : CanOpen c p H env dir)
    (hrule : OpenLegible c p env dir) (h : openDir c p env dir = some s) : s.Legible c := by
  by_cases hempty : dir = DataDir.empty
  · rw [hempty] at h hdir
    obtain ⟨⟨-, hg⟩ | ⟨ids, entries, hstored⟩, -⟩ := hdir
    · exact openDir_empty_legible hg h
    · cases hstored.index
  · obtain ⟨hboot, hw⟩ := hdir
    have hw' : AllWritable env := hw.resolve_left hempty
    obtain ⟨ids, entries, hstored⟩ := hboot.resolve_left fun hnew => hempty hnew.1
    have hordered := openDir_ordered hH hw' hboot h
    obtain ⟨t, hload, hmap, hheight, hother, hdropped, hkeep⟩ := openDir_files hH hw' hstored h
    obtain ⟨t', hload', hpath⟩ := openDir_pathTo hH ⟨hboot, hw⟩ h
    rw [hload] at hload'
    cases hload'
    constructor
    · intro id k hnone hk
      -- an active block is in the pool
      have hside : id ∉ s.heightMap := by
        intro hid
        obtain ⟨i, hi⟩ := List.mem_iff_getElem?.mp hid
        obtain ⟨b, hb, -⟩ := hordered.poolActive.block hordered.described hi
        rw [hnone] at hb
        cases hb
      rcases hordered.rebuilt.heightIndex.mp hk with hi | ⟨l, hl, hlt, hlen⟩
      · exact absurd (List.mem_of_getElem? hi) hside
      · obtain ⟨hl', hkept⟩ := hpath id l hl
        have hid : id ∉ t.heightMap := fun hmem => hside
          (openDir_active h hload hmem fun hne => hkept hne id (Forest.PathTo.mem_self hl))
        have hheld := hrule.held t hload id l hl' hlt hkept hid
        rw [hlen] at hheld
        rw [hmap] at hheld hid
        refine hheld.of_store (hheight k) ((hother id hid).trans ?_)
        unfold keptStore
        split <;> rfl
    · intro id b hb
      refine ⟨hordered.described.hashFiles hb, ?_⟩
      by_cases hid : id ∈ ids
      · by_cases hactive : id ∈ s.heightMap
        · exact PathTo.lookup hordered.coherent.active hactive
        · have hne : loadedLength c p env t ≠ 0 ∧ id ∈ ids.drop (loadedLength c p env t) := by
            by_contra hnot
            refine hactive (openDir_active h hload (hmap ▸ hid) fun hne hmem => ?_)
            rw [hmap] at hmem
            exact hnot ⟨hne, hmem⟩
          rw [hdropped hne.1 id hne.2] at hb
          cases hb
      · rw [hother id hid] at hb
        obtain ⟨hdr, hhdr⟩ := hrule.known t hload id b hb
        exact ⟨hdr, hkeep id hdr hhdr fun _ hmem => hid (List.mem_of_mem_drop hmem)⟩

/-! ## Runs -/

theorem Legible.operated (h : s.Legible c) (hs : s.Coherent c p H) (hop : Operated s s') :
    s'.Legible c := by
  obtain ⟨hframe, -⟩ := hop.frame hs
  rw [hframe.only]
  exact h.congr rfl rfl rfl rfl

theorem Reachable.legible (hH : CollisionFree c H)
    (h : Reachable c p H (Rules.legible c p H) s) : s.Coherent c p H ∧ s.Legible c := by
  have hopen : ∀ env dir s, (Rules.legible c p H).opens env dir → openDir c p env dir = some s →
      s.Coherent c p H ∧ s.Legible c := fun env dir s ho hs =>
    ⟨openDir_coherent hH ho.1 hs, openDir_legible hH ho.1 ho.2 hs⟩
  refine h.invariant (I := fun t => t.Coherent c p H ∧ t.Legible c)
    (fun env dir s _ => hopen env dir s) ?_ ?_ ?_ (fun env t t' _ => hopen env t.dataDir t')
  · rintro env skip t blk ⟨ht, hlegible⟩ hb hrule
    exact ⟨ht.acceptOne hH hb, hlegible.acceptOne hH ht hb hrule⟩
  · rintro t id blk ⟨ht, -⟩ hb
    exact ht.pool_mem hb
  · rintro t t' ⟨ht, hlegible⟩ hop
    exact ⟨ht.operated hop, hlegible.operated ht hop⟩

/-- In a run in which no height is given to a block that its file does not
hold, lookups by hash are faithful. -/
theorem Reachable.looksUp (hH : CollisionFree c H)
    (h : Reachable c p H (Rules.legible c p H) s) : s.LooksUp c :=
  have hboth := h.legible hH
  hboth.2.lookups_exact hH hboth.1

/-! ## A run with a side branch, and one that opens its directory again -/

/-- A call without orphans, with every write succeeding, whose block is not
refused meets the condition. -/
theorem Reachable.legiblePass (hH : CollisionFree c H) (hw : AllWritable env) {fuel : Nat}
    {r : Bool} (h : Reachable c p H (Rules.legible c p H) s) (hb : blk.header ∈ H)
    (hone : passes c p env skip fuel s blk = [(s, blk)])
    (hv : (s.acceptOne c p env skip blk).1 ≠ .candidateInvalid)
    (hacc : acceptBlock c p env skip fuel s blk = some (r, s')) :
    Reachable c p H (Rules.legible c p H) s' := by
  have hcoh := (h.legible hH).1
  refine h.delivered (.call env skip fuel blk r hb (fun x hx => ?_) hacc)
  rw [hone, List.mem_singleton] at hx
  subst hx
  have hout : Outcome c p env skip s blk (s.acceptOne c p env skip blk).1
      (s.acceptOne c p env skip blk).2 := acceptOne_outcome hH hcoh hb
  constructor
  · intro path href
    exact absurd ((hout.refused_iff hH hcoh.index hb).mpr ⟨path, href⟩) hv
  · intro path hfails
    exact absurd (fun i id _ => ⟨hw _, hw _⟩) hfails.unwritable

theorem openLegible_empty : OpenLegible c p env .empty := by
  obtain ⟨f, hload, hf⟩ := loadChain_empty c p env
  constructor
  · intro s hs id l hl hlt _ _
    rw [hload] at hs
    cases hs
    have hspec : Rebuilt p f (rebuildKnownBlockState p env f) := rebuild_spec hf.active
    rw [hf.pathTo_single hspec hl] at hlt
    exact absurd hlt (by simp)
  · intro s _ id b hb
    cases hb

open Regtest

theorem looksUp_side : ∃ s,
    Reachable crypto .regtest Regtest.H (Rules.legible crypto .regtest Regtest.H) s ∧
      s.chainWork.keys.card = 3 ∧ s.LooksUp crypto := by
  obtain ⟨s, t, u, hrun⟩ := sideRun
  have hstart : Reachable crypto .regtest Regtest.H (Rules.legible crypto .regtest Regtest.H) s :=
    .opened trivial ⟨canOpen_empty, openLegible_empty⟩ hrun.start
  have hfirst := hstart.legiblePass Regtest.collisionFree allWritable (by decide)
    hrun.extendPass (by rw [hrun.switched]; decide) hrun.extend
  have hsecond := hfirst.legiblePass Regtest.collisionFree allWritable (by decide)
    hrun.asidePass (by rw [hrun.side]; decide) hrun.aside
  exact ⟨u, hsecond, hrun.credited, Reachable.looksUp Regtest.collisionFree hsecond⟩

/-- After a restart `b1` has the height of `a1` and is read from its file. -/
theorem not_looksUp_restart : ∃ s,
    Reachable crypto .regtest Regtest.H (Rules.any crypto .regtest Regtest.H) s ∧
      ¬ s.LooksUp crypto := by
  have hrun : ((restarted [a1, b1, a2] []).map fun s =>
      (s.getBlockByHash (b1.header.powHash crypto).toNat).map (·.header)) = some (some a1.header) := by
    decide +kernel
  obtain ⟨s, hrestarted, hfound⟩ := Option.map_eq_some_iff.mp hrun
  obtain ⟨b, hb, hheader⟩ := Option.map_eq_some_iff.mp hfound
  refine ⟨s, reachable_restarted (by decide) (by decide) hrestarted, fun h => ?_⟩
  have hown := h.own _ b hb
  rw [hheader] at hown
  exact absurd hown (by decide +kernel)

end Blockchain

end Cryptex
