import Cryptex.BlockFiles

/-!
# When a pass switches

A pass over a block makes its path the active chain exactly when the block
is a valid candidate with more work than the tip, the path is allowed and
its files can be written.
-/

namespace Cryptex

open Forest

namespace Blockchain

variable {c : Crypto} {p : ChainParams} {env : Env} {skip : Bool} {H : Set BlockHeader}
  {s s' : Blockchain} {blk : Block}

/-- The files of a path can all be written. -/
def PathWritable (env : Env) (path : List Hash512) : Prop :=
  ∀ (i : Nat) id, path[i]? = some id →
    env.canWrite (.height i) = true ∧ env.canWrite (.byHash id) = true

/-- Writing the path of a block succeeds exactly when its files can be written. -/
theorem pathWritable_iff {path : List Hash512} {blocks : List Block}
    (hlen : path.length = blocks.length) (st : BlockStore) :
    (writePath env.canWrite st 0 (path.zip blocks)).2 = true ↔ PathWritable env path := by
  rw [writePath_ok_iff]
  constructor
  · intro h i id hi
    have hlt := (List.getElem?_eq_some_iff.mp hi).1
    have hb := List.getElem?_eq_getElem (show i < blocks.length by omega)
    have hw := h i (id, blocks[i]) (List.getElem?_zip_eq_some.mpr ⟨hi, hb⟩)
    rw [Nat.zero_add] at hw
    exact hw
  · intro h j e he
    obtain ⟨hid, -⟩ := List.getElem?_zip_eq_some.mp he
    rw [Nat.zero_add]
    exact h j e.1 hid

/-- An activation of a valid path fails on a file that cannot be written, before
it reaches the by-hash file of its last block. -/
theorem failed_held {path : List Hash512} {s' : Blockchain}
    (hcand : Candidate c s blk path) (hvalid : s.PathValid c p env skip path) {utxo : UTXOSet}
    {bits : UInt32} (h : activatePath p env s path utxo bits = (false, s')) :
    ¬ PathWritable env path ∧ ∃ store, s' = { s with store := store } ∧
      store.loadByHash (blk.header.powHash c) = s.store.loadByHash (blk.header.powHash c) := by
  obtain ⟨blocks, hblocks, -, -⟩ := hvalid.accepts
  have hlen := hblocks.length_eq
  have hkeys : (path.zip blocks).map Prod.fst = path := List.map_fst_zip (Nat.le_of_eq hlen)
  rw [activatePath, hblocks.mapM_eq] at h
  simp only at h
  cases hwrite : writePath env.canWrite s.store 0 (path.zip blocks) with
  | mk store ok =>
      rw [hwrite] at h
      cases ok with
      | true => cases h
      | false =>
          cases h
          refine ⟨?_, store, rfl, ?_⟩
          · rw [← pathWritable_iff hlen s.store, hwrite]
            exact Bool.false_ne_true
          · refine writePath_last _ hwrite ?_ ?_
            · rw [hkeys]
              exact Forest.PathTo.nodup hcand.linked
            · rw [hkeys]
              exact Forest.PathTo.getLast? hcand.linked

/-- The block becomes the tip of the active chain, which is then `path`. -/
structure Switches (c : Crypto) (p : ChainParams) (env : Env) (skip : Bool) (s : Blockchain)
    (blk : Block) (path : List Hash512) : Prop where
  check : s.statelessCheck c p env skip blk = none
  candidate : Candidate c (s.cacheBlock c env blk) blk path
  valid : (s.cacheBlock c env blk).PathValid c p env skip path
  heavier : s.pathWork p s.heightMap < (s.cacheBlock c env blk).pathWork p path
  allowed : s.PathAllowed env path
  writable : PathWritable env path

/-- The parent of a candidate is known and has work. -/
theorem Candidate.parent_credited (hH : CollisionFree c H) (hs : s.IndexOk c H)
    (hb : blk.header ∈ H) (hprev : blk.header.prevBlockHash ≠ 0) {path : List Hash512}
    (h : Candidate c (s.cacheBlock c env blk) blk path) :
    ∃ parent w, s.linkIndex.lookup blk.header.prevBlockHash = some parent ∧
      s.chainWork.lookup parent = some w := by
  have hself : (s.cacheBlock c env blk).index.lookup (blk.header.powHash c) = some blk.header :=
    cacheBlock_lookup_self hH hs hb
  cases hlinked : h.linked with
  | root hroot =>
      obtain ⟨hdr, hhdr, hzero⟩ := linkOf_root_iff.mp hroot
      rw [hself] at hhdr
      cases hhdr
      exact absurd hzero hprev
  | @child _ parent l hup hparent =>
      obtain ⟨hdr, hhdr, -, hlink⟩ := linkOf_parent_iff.mp hup
      rw [hself] at hhdr
      cases hhdr
      have hne : parent ≠ blk.header.powHash c := by
        rintro rfl
        have hnd := Forest.PathTo.nodup h.linked
        rw [List.nodup_append] at hnd
        exact hnd.2.2 _ hparent.mem_self _ (by simp) rfl
      obtain ⟨w, hw⟩ := h.parents parent (List.mem_append_left _ hparent.mem_self) hne
      refine ⟨parent, w, ?_, hw⟩
      rw [Blockchain.cacheBlock] at hlink
      simp only [FinMap.lookup_insert_ite] at hlink
      split at hlink
      · cases hlink
        exact absurd rfl hne
      · exact hlink

/-- Of the ways in which a pass can end, only the switch is open to a block
that meets the conditions, and to no other. -/
theorem Outcome.switched_iff (hH : CollisionFree c H) (hs : s.Coherent c p H) (hb : blk.header ∈ H)
    {v : Verdict} (h : Outcome c p env skip s blk v s') :
    v = .switched ↔ ∃ path, s.Switches c p env skip blk path := by
  have hcoh : (s.cacheBlock c env blk).Coherent c p H := hs.cacheBlock hH hb
  cases h with
  | rejected hcheck hv =>
      refine iff_of_false ?_ ?_
      · rintro rfl
        cases hv
      · rintro ⟨path, hsw⟩
        rw [hsw.check] at hcheck
        cases hcheck
  | processed _ hw =>
      refine iff_of_false (by simp) ?_
      rintro ⟨path, hsw⟩
      have hfresh : s.chainWork.lookup (blk.header.powHash c) = none := hsw.candidate.fresh
      rw [hw] at hfresh
      cases hfresh
  | orphan _ _ hprev hparent =>
      refine iff_of_false (by simp) ?_
      rintro ⟨path, hsw⟩
      obtain ⟨parent, w, hlink, hw⟩ := hsw.candidate.parent_credited hH hs.index hb hprev
      rw [hparent parent hlink] at hw
      cases hw
  | invalid _ hcand hinvalid =>
      refine iff_of_false (by simp) ?_
      rintro ⟨path, hsw⟩
      have hvalid := hsw.valid
      rw [hsw.candidate.linked.unique hcand.linked] at hvalid
      exact hinvalid hvalid
  | side _ hcand _ hle =>
      refine iff_of_false (by simp) ?_
      rintro ⟨path, hsw⟩
      have hlt := hsw.heavier
      rw [hsw.candidate.linked.unique hcand.linked] at hlt
      omega
  | refused _ hcand _ _ hrefused hv =>
      refine iff_of_false (by rcases hv with rfl | rfl <;> simp) ?_
      rintro ⟨path, hsw⟩
      have hallowed := hsw.allowed
      rw [hsw.candidate.linked.unique hcand.linked] at hallowed
      exact hrefused hallowed
  | failed _ hcand hvalid _ _ hact =>
      refine iff_of_false (by simp) ?_
      rintro ⟨path, hsw⟩
      have hwritable := hsw.writable
      rw [hsw.candidate.linked.unique hcand.linked] at hwritable
      exact (failed_held hcand hvalid hact).1 hwritable
  | switched hcheck hcand hvalid hlt hallowed hact =>
      refine iff_of_true rfl ⟨_, hcheck, hcand, hvalid, hlt, hallowed, ?_⟩
      obtain ⟨-, blocks, store, files, cp, hblocks, -, -, hwrite, -⟩ :=
        hcoh.switch hH hcand (cacheBlock_pool_self s blk) hvalid hallowed.1 hact
      refine (pathWritable_iff hblocks.length_eq (s.cacheBlock c env blk).store).mp ?_
      rw [hwrite]

end Blockchain

end Cryptex
