import Cryptex.AcceptRules

/-!
# The files an activation leaves

When every write of an activation succeeds, the height files hold the blocks
of the new active chain, the by-hash files hold them under their ids, and
the small files describe the new state.
-/

namespace Cryptex

namespace Blockchain

variable {c : Crypto} {p : ChainParams} {env : Env} {skip : Bool} {H : Set BlockHeader}
  {s s' : Blockchain}

/-- Every write succeeds. -/
def AllWritable (env : Env) : Prop := ∀ f, env.canWrite f = true

/-! ## Block files -/

theorem writePath_writable {w : Writable} (hw : ∀ f, w f = true) :
    ∀ (entries : List (Hash512 × Block)) (st : BlockStore) (i : Nat),
      ∃ st', writePath w st i entries = (st', true)
  | [], st, _ => ⟨st, rfl⟩
  | (id, blk) :: rest, st, i => by
      simp only [writePath, BlockStore.store, BlockStore.storeByHash, hw, if_true]
      exact writePath_writable hw rest _ (i + 1)

/-- Writing a path succeeds exactly when each of its files can be written. -/
theorem writePath_ok_iff {w : Writable} : ∀ (entries : List (Hash512 × Block)) (st : BlockStore)
    (i : Nat), (writePath w st i entries).2 = true ↔
      ∀ (j : Nat) e, entries[j]? = some e → w (.height (i + j)) = true ∧ w (.byHash e.1) = true
  | [], st, i => by simp [writePath]
  | (id, blk) :: rest, st, i => by
      rw [writePath, BlockStore.store]
      by_cases hh : w (.height i) = true
      · rw [if_pos hh]
        simp only [BlockStore.storeByHash]
        by_cases hf : w (.byHash id) = true
        · rw [if_pos hf]
          rw [writePath_ok_iff rest]
          constructor
          · intro h j e he
            cases j with
            | zero => cases he; exact ⟨hh, hf⟩
            | succ j =>
                rw [List.getElem?_cons_succ] at he
                rw [show i + (j + 1) = i + 1 + j by omega]
                exact h j e he
          · intro h j e he
            have := h (j + 1) e (by rw [List.getElem?_cons_succ]; exact he)
            rw [show i + 1 + j = i + (j + 1) by omega]
            exact this
        · rw [if_neg hf]
          simp only [Bool.false_eq_true, false_iff]
          intro h
          exact hf (h 0 _ rfl).2
      · rw [if_neg hh]
        simp only [Bool.false_eq_true, false_iff]
        intro h
        exact hh (h 0 _ rfl).1

/-- Writing that breaks off has not reached the by-hash file of the last id. -/
theorem writePath_last {w : Writable} {id : Hash512} : ∀ (entries : List (Hash512 × Block))
    {st st' : BlockStore} {i : Nat}, writePath w st i entries = (st', false) →
    (entries.map Prod.fst).Nodup → (entries.map Prod.fst).getLast? = some id →
    st'.hashFiles.lookup id = st.hashFiles.lookup id
  | [], _, _, _, h, _, _ => by cases h
  | (j, blk) :: rest, st, st', i, h, hnd, hlast => by
      rw [writePath, BlockStore.store] at h
      by_cases hh : w (.height i) = true
      · rw [if_pos hh] at h
        simp only [BlockStore.storeByHash] at h
        by_cases hf : w (.byHash j) = true
        · rw [if_pos hf] at h
          cases rest with
          | nil => cases h
          | cons e rest =>
              rw [List.map_cons, List.nodup_cons] at hnd
              rw [List.map_cons, List.map_cons, List.getLast?_cons_cons, ← List.map_cons] at hlast
              have hne : id ≠ j := by
                rintro rfl
                exact hnd.1 (List.mem_of_getLast? hlast)
              rw [writePath_last (e :: rest) h hnd.2 hlast]
              exact Finmap.lookup_insert_of_ne _ hne
        · rw [if_neg hf] at h
          cases h
          rfl
      · rw [if_neg hh] at h
        cases h
        rfl

/-- One block written under its height and its id. -/
theorem writePath_cons {w : Writable} {st st' : BlockStore} {i : Nat} {id : Hash512} {blk : Block}
    {rest : List (Hash512 × Block)} (h : writePath w st i ((id, blk) :: rest) = (st', true)) :
    writePath w ⟨st.heightFiles.insert i blk, st.hashFiles.insert id blk⟩ (i + 1) rest
      = (st', true) := by
  rw [writePath, BlockStore.store] at h
  by_cases hw : w (.height i) = true
  · rw [if_pos hw] at h
    simp only [BlockStore.storeByHash] at h
    by_cases hw' : w (.byHash id) = true
    · rw [if_pos hw'] at h
      exact h
    · rw [if_neg hw'] at h
      cases h
  · rw [if_neg hw] at h
    cases h

theorem writePath_height_of_lt {w : Writable} : ∀ {entries : List (Hash512 × Block)}
    {st st' : BlockStore} {i k : Nat}, writePath w st i entries = (st', true) → k < i →
    st'.heightFiles.lookup k = st.heightFiles.lookup k
  | [], st, st', i, k, h, _ => by cases h; rfl
  | (id, blk) :: rest, st, st', i, k, h, hk => by
      rw [writePath_height_of_lt (writePath_cons h) (by omega), Finmap.lookup_insert_of_ne _ (by omega)]

/-- The height files of the path hold its blocks. -/
theorem writePath_height {w : Writable} : ∀ {entries : List (Hash512 × Block)}
    {st st' : BlockStore} {i j : Nat} {e : Hash512 × Block},
    writePath w st i entries = (st', true) → entries[j]? = some e →
    st'.heightFiles.lookup (i + j) = some e.2
  | [], _, _, _, _, _, _, he => by simp at he
  | (id, blk) :: rest, st, st', i, 0, e, h, he => by
      cases he
      rw [Nat.add_zero, writePath_height_of_lt (writePath_cons h) (by omega), Finmap.lookup_insert]
  | (id, blk) :: rest, st, st', i, j + 1, e, h, he => by
      rw [List.getElem?_cons_succ] at he
      rw [← writePath_height (writePath_cons h) he]
      congr 1
      omega

theorem writePath_hash_of_notMem {w : Writable} : ∀ {entries : List (Hash512 × Block)}
    {st st' : BlockStore} {i : Nat} {id : Hash512}, writePath w st i entries = (st', true) →
    id ∉ entries.map Prod.fst → st'.hashFiles.lookup id = st.hashFiles.lookup id
  | [], st, st', i, id, h, _ => by cases h; rfl
  | (id', blk) :: rest, st, st', i, id, h, hnot => by
      simp only [List.map_cons, List.mem_cons, not_or] at hnot
      rw [writePath_hash_of_notMem (writePath_cons h) hnot.2, Finmap.lookup_insert_of_ne _ hnot.1]

/-- The by-hash files of the path hold its blocks. -/
theorem writePath_hash {w : Writable} : ∀ {entries : List (Hash512 × Block)}
    {st st' : BlockStore} {i : Nat} {e : Hash512 × Block},
    writePath w st i entries = (st', true) → (entries.map Prod.fst).Nodup → e ∈ entries →
    st'.hashFiles.lookup e.1 = some e.2
  | [], _, _, _, _, _, _, he => by cases he
  | (id, blk) :: rest, st, st', i, e, h, hnd, he => by
      rw [List.map_cons, List.nodup_cons] at hnd
      rcases List.mem_cons.mp he with rfl | he
      · rw [writePath_hash_of_notMem (writePath_cons h) hnd.1, Finmap.lookup_insert]
      · exact writePath_hash (writePath_cons h) hnd.2 he

/-- A by-hash file holds a block of the path or what it held before. -/
theorem writePath_hash_sub {w : Writable} {entries : List (Hash512 × Block)}
    {st st' : BlockStore} {i : Nat} (h : writePath w st i entries = (st', true))
    (hnd : (entries.map Prod.fst).Nodup) {id : Hash512} {b : Block}
    (hb : st'.hashFiles.lookup id = some b) :
    (id, b) ∈ entries ∨ st.hashFiles.lookup id = some b := by
  by_cases hid : id ∈ entries.map Prod.fst
  · obtain ⟨e, he, rfl⟩ := List.mem_map.mp hid
    rw [writePath_hash h hnd he] at hb
    exact Or.inl (Option.some.inj hb ▸ he)
  · rw [writePath_hash_of_notMem h hid] at hb
    exact Or.inr hb

/-! ## The small files -/

/-- The files an activation writes when every write succeeds. -/
theorem activatePath_files (hw : AllWritable env) {path : List Hash512} {utxo : UTXOSet}
    {bits : UInt32} (h : activatePath p env s path utxo bits = (true, s')) :
    s'.files.index = some s'.heightMap ∧
      s'.files.headers = some (env.visitOrder.visit s'.index) ∧
      s'.files.chainstate = some (s'.bestHeight, s'.tipHash, s'.utxo) := by
  rw [activatePath] at h
  cases hm : path.mapM fun id => s.getBlockByHash id.toNat with
  | none => rw [hm] at h; cases h
  | some blocks =>
      rw [hm] at h
      simp only at h
      cases hwrite : writePath env.canWrite s.store 0 (path.zip blocks) with
      | mk store ok =>
          rw [hwrite] at h
          cases ok with
          | false => cases h
          | true =>
              have hs' := (congrArg Prod.snd h).symm
              simp only [persistChainstate, persistHeaders, saveIndex, hw _, if_true] at hs'
              rw [hs']
              exact ⟨rfl, rfl, rfl⟩

/-- With every write succeeding, an activation fails only on a missing block. -/
theorem activatePath_writable (hw : AllWritable env) {path : List Hash512} {blocks : List Block}
    (hblocks : s.BlocksOf path blocks) (utxo : UTXOSet) (bits : UInt32) :
    ∃ s', activatePath p env s path utxo bits = (true, s') := by
  obtain ⟨store, hstore⟩ := writePath_writable hw (path.zip blocks) s.store 0
  rw [activatePath, hblocks.mapM_eq]
  simp only [hstore]
  exact ⟨_, rfl⟩

/-- The state and the block files after a path with the given blocks has been
activated. -/
structure Activated (p : ChainParams) (path : List Hash512) (blocks : List Block) (utxo : UTXOSet)
    (bits : UInt32) (s s' : Blockchain) : Prop where
  only : s' = { s.adoptPath p path blocks s.store utxo bits with
    store := s'.store
    files := s'.files
    localCheckpoint := s'.localCheckpoint }
  load : ∀ {i}, i < path.length → s'.store.load i = blocks[i]?
  heightSub : ∀ {i b}, s'.store.heightFiles.lookup i = some b →
    i < path.length ∨ s.store.heightFiles.lookup i = some b
  hashSub : ∀ {id b}, s'.store.hashFiles.lookup id = some b →
    (id, b) ∈ path.zip blocks ∨ s.store.hashFiles.lookup id = some b
  hashNew : ∀ {id b}, (id, b) ∈ path.zip blocks → s'.store.hashFiles.lookup id = some b
  hashOld : ∀ {id}, id ∉ path → s'.store.hashFiles.lookup id = s.store.hashFiles.lookup id

theorem writePath_height_of_ge {w : Writable} : ∀ {entries : List (Hash512 × Block)}
    {st st' : BlockStore} {i k : Nat}, writePath w st i entries = (st', true) →
    i + entries.length ≤ k → st'.heightFiles.lookup k = st.heightFiles.lookup k
  | [], st, st', i, k, h, _ => by cases h; rfl
  | (id, blk) :: rest, st, st', i, k, h, hk => by
      rw [List.length_cons] at hk
      rw [writePath_height_of_ge (writePath_cons h) (by omega),
        Finmap.lookup_insert_of_ne _ (by omega)]

theorem activatePath_activated {path : List Hash512} (hnd : path.Nodup) {blocks : List Block}
    (hblocks : s.BlocksOf path blocks) {utxo : UTXOSet} {bits : UInt32}
    (h : activatePath p env s path utxo bits = (true, s')) :
    Activated p path blocks utxo bits s s' := by
  obtain ⟨blocks', store, files, cp, hm, hwrite, rfl, -, -⟩ := activatePath_true h
  rw [hblocks.mapM_eq] at hm
  cases hm
  have hlen := hblocks.length_eq
  have hkeys : (path.zip blocks).map Prod.fst = path := List.map_fst_zip (Nat.le_of_eq hlen)
  refine ⟨rfl, ?_, ?_, ?_, ?_, ?_⟩
  · intro i hi
    have hj := List.getElem?_eq_getElem hi
    have hb := List.getElem?_eq_getElem (show i < blocks.length by omega)
    have hfile := writePath_height hwrite (List.getElem?_zip_eq_some (z := (_, _)) |>.mpr ⟨hj, hb⟩)
    rw [Nat.zero_add] at hfile
    rw [hb]
    exact (BlockStore.prune_load_le store (by omega)).trans hfile
  · intro i b hb
    by_cases hi : i < path.length
    · exact Or.inl hi
    · right
      have hb' : store.heightFiles.lookup i = some b := BlockStore.prune_load_sub store hb
      rw [writePath_height_of_ge hwrite (by rw [List.length_zip]; omega)] at hb'
      exact hb'
  · intro id b hb
    exact writePath_hash_sub hwrite (by rw [hkeys]; exact hnd) hb
  · intro id b he
    exact writePath_hash hwrite (by rw [hkeys]; exact hnd) he
  · intro id hid
    have hnot : id ∉ (path.zip blocks).map Prod.fst := by rw [hkeys]; exact hid
    have hfile := writePath_hash_of_notMem hwrite hnot
    exact hfile

end Blockchain

end Cryptex
