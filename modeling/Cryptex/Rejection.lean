import Cryptex.RegtestRun

/-!
# What a rejected block leaves behind

A block that `accept_block` refuses is cached first and purged only when its
path is invalid; a purge forgets whatever waits for the block and recomputes
the known block state. `NoTrace` is the state that a rejection without a
trace would leave, and `noTrace_iff` says when there is one.
-/

namespace Cryptex

open Forest

namespace Blockchain

variable {c : Crypto} {p : ChainParams} {env : Env} {skip : Bool} {H : Set BlockHeader}
  {s s' : Blockchain} {blk : Block}

/-! ## Unknown blocks -/

/-- Neither the id of the block nor its link is known, and no block is found
under them. -/
def Unknown (c : Crypto) (s : Blockchain) (blk : Block) : Prop :=
  ∀ x, x = (blk.header.powHash c).toNat ∨ x = (blk.header.hash c).toNat →
    s.knowsHash x = false ∧ s.getBlockByHash x = none

theorem unknown_iff (hH : CollisionFree c H) (hs : s.IndexOk c H) (hb : blk.header ∈ H) :
    s.Unknown c blk ↔ s.index.lookup (blk.header.powHash c) = none := by
  constructor
  · intro h
    cases hid : s.index.lookup (blk.header.powHash c) with
    | none => rfl
    | some hdr =>
        have hknows := (h _ (Or.inl rfl)).1
        rw [knowsHash, canonicalBlockIdFor_id hid] at hknows
        cases hknows
  · intro hnone x hx
    have hlink : s.linkIndex.lookup (blk.header.hash c) = none := by
      cases hl : s.linkIndex.lookup (blk.header.hash c) with
      | none => rfl
      | some j =>
          obtain ⟨hdr, hj, hhash⟩ := hs.link.mp hl
          have heq := hH.hash_inj (hs.mem hj) hb hhash
          rw [← hs.id_eq hj, heq, hnone] at hj
          cases hj
    have hcanon : s.canonicalBlockIdFor x = none := by
      unfold canonicalBlockIdFor
      rcases hx with rfl | rfl
      · rw [asHash_toNat, Option.filter_some, hnone]
        have hwide : asHash 256 (blk.header.powHash c).toNat = none := by
          rw [asHash, dif_neg (Nat.not_lt.mpr (le_toNat_powHash hH hb))]
        simp [hwide]
      · have hnarrow : (asHash 512 (blk.header.hash c).toNat).filter
            (fun id => (s.index.lookup id).isSome) = none := by
            cases hj : asHash 512 (blk.header.hash c).toNat with
          | none => rfl
          | some j =>
              have hval := toNat_of_asHash hj
              rw [Option.filter_some, if_neg]
              rw [Bool.not_eq_true, Option.isSome_eq_false_iff, Option.isNone_iff_eq_none]
              cases hl : s.index.lookup j with
              | none => rfl
              | some hdr =>
                  -- an id of such a value would have a null link
                  have hle := le_toNat_powHash hH (hs.mem hl)
                  rw [hs.id_eq hl, hval] at hle
                  have hlt := (blk.header.hash c).isLt
                  omega
        simp [hnarrow, hlink]
    constructor
    · rw [knowsHash, hcanon]
      rfl
    · unfold getBlockByHash
      simp only [hcanon]

/-! ## The property and its condition -/

/-- The state is as it was, and an unknown block is still unknown. -/
structure NoTrace (c : Crypto) (s s' : Blockchain) (blk : Block) : Prop where
  bestHeight : s'.bestHeight = s.bestHeight
  tipHash : s'.tipHash = s.tipHash
  heightMap : s'.heightMap = s.heightMap
  utxo : s'.utxo = s.utxo
  mempool : s'.mempool = s.mempool
  chainWork : s'.chainWork = s.chainWork
  index : s'.index = s.index
  linkIndex : s'.linkIndex = s.linkIndex
  heightIndex : s'.heightIndex = s.heightIndex
  unknown : s.Unknown c blk → s'.Unknown c blk ∧
    ∀ id b, s'.store.hashFiles.lookup id = some b → s.store.hashFiles.lookup id = some b

/-- Every connected header has its work, and the height index is as a rebuild
leaves it. -/
structure Settled (s : Blockchain) : Prop where
  work : ∀ {id l}, s.PathTo id l → ∃ w, s.chainWork.lookup id = some w
  height : ∀ {id h}, s.heightIndex.lookup id = some h ↔ s.heightMap[h]? = some id ∨
    ∃ l, s.PathTo id l ∧ 1 < l.length ∧ l.length = h + 1

/-- The path of a block that is cached is validated in full. -/
def CandidateValid (c : Crypto) (p : ChainParams) (env : Env) (skip : Bool) (s : Blockchain)
    (blk : Block) : Prop :=
  ∃ path, (s.cacheBlock c env blk).buildPathToGenesis (blk.header.powHash c) = some path ∧
    (s.cacheBlock c env blk).PathValid c p env skip path

/-- The rejections that leave no trace: before anything is stored; of a known
block with a valid path; and of an unknown block with an invalid path for
which nothing waits, in a state that a rebuild does not change. -/
def RejectsCleanly (c : Crypto) (p : ChainParams) (env : Env) (skip : Bool) (s : Blockchain)
    (blk : Block) : Prop :=
  s.statelessCheck c p env skip blk ≠ none ∨
    (s.CandidateValid c p env skip blk ∧ ∃ hdr, s.index.lookup (blk.header.powHash c) = some hdr) ∨
    (¬ s.CandidateValid c p env skip blk ∧ s.index.lookup (blk.header.powHash c) = none ∧
      (s.children.lookup (blk.header.hash c)).getD [] = [] ∧ s.Settled)

/-! ## The cases of a rejection -/

theorem acceptBlock_false {fuel : Nat} (h : acceptBlock c p env skip fuel s blk = some (false, s')) :
    (s.acceptOne c p env skip blk).1.accepted = false ∧
      s' = (s.acceptOne c p env skip blk).2 := by
  cases fuel with
  | zero => cases h
  | succ fuel =>
      rw [acceptBlock] at h
      generalize s.acceptOne c p env skip blk = res at h
      obtain ⟨v, s₁⟩ := res
      simp only at h ⊢
      cases hv : v.connects with
      | true =>
          rw [hv] at h
          obtain ⟨s₂, -, heq⟩ := Option.map_eq_some_iff.mp h
          rw [Verdict.accepted_of_connects hv] at heq
          cases heq
      | false =>
          rw [hv, if_neg Bool.false_ne_true, Option.some.injEq, Prod.mk.injEq] at h
          exact ⟨h.1, h.2.symm⟩

/-- Caching a known block touches the pool and its file only. -/
theorem cacheBlock_known (env : Env) (hs : s.IndexOk c H) {hdr : BlockHeader}
    (hid : s.index.lookup (blk.header.powHash c) = some hdr) (hH : CollisionFree c H)
    (hb : blk.header ∈ H) :
    (s.cacheBlock c env blk).index = s.index ∧ (s.cacheBlock c env blk).linkIndex = s.linkIndex := by
  have heq := hH.eq_of_powHash (hs.mem hid) hb (hs.id_eq hid)
  constructor
  · rw [cacheBlock]
    simp only [hid, Option.isSome_some, if_true]
  · rw [cacheBlock]
    exact FinMap.insert_eq_self (hs.link.mpr ⟨hdr, hid, by rw [heq]⟩)

/-- A refused block with a valid path is forgotten by nobody. -/
theorem noTrace_valid (hH : CollisionFree c H) (hs : s.Coherent c p H) (hb : blk.header ∈ H)
    {path : List Hash512} (hcheck : s.statelessCheck c p env skip blk = none)
    (hcand : Candidate c (s.cacheBlock c env blk) blk path)
    (hvalid : (s.cacheBlock c env blk).PathValid c p env skip path) (store : BlockStore) :
    NoTrace c s { s.cacheBlock c env blk with store := store } blk ↔
      s.RejectsCleanly c p env skip blk := by
  have hcandidate : s.CandidateValid c p env skip blk :=
    ⟨path, buildPathToGenesis_iff.mpr hcand.linked, hvalid⟩
  have hknown : s.RejectsCleanly c p env skip blk ↔
      ∃ hdr, s.index.lookup (blk.header.powHash c) = some hdr := by
    constructor
    · rintro (h | ⟨-, h⟩ | ⟨h, -⟩)
      · exact absurd hcheck h
      · exact h
      · exact absurd hcandidate h
    · intro h
      exact Or.inr (Or.inl ⟨hcandidate, h⟩)
  rw [hknown]
  constructor
  · intro h
    have hself : (s.cacheBlock c env blk).index.lookup (blk.header.powHash c) = some blk.header :=
      cacheBlock_lookup_self hH hs.index hb
    refine ⟨blk.header, ?_⟩
    rw [← h.index]
    exact hself
  · rintro ⟨hdr, hid⟩
    obtain ⟨hindex, hlink⟩ := cacheBlock_known env hs.index hid hH hb
    exact
      { bestHeight := rfl
        tipHash := rfl
        heightMap := rfl
        utxo := rfl
        mempool := rfl
        chainWork := rfl
        index := hindex
        linkIndex := hlink
        heightIndex := rfl
        unknown := fun h => by
          rw [unknown_iff hH hs.index hb, hid] at h
          cases h }

/-- What waits for an unknown block is not connected. -/
theorem Coherent.kid_height (hH : CollisionFree c H) (hs : s.Coherent c p H) (hb : blk.header ∈ H)
    (hnew : s.index.lookup (blk.header.powHash c) = none) {k : Hash512}
    (hk : k ∈ (s.children.lookup (blk.header.hash c)).getD []) :
    s.heightIndex.lookup k = none := by
  obtain ⟨hdr, hhdr, hprev, hne⟩ := hs.children hk
  cases hh : s.heightIndex.lookup k with
  | none => rfl
  | some h =>
      obtain ⟨l, w, hl, -, -⟩ := hs.heightIndex hh
      cases hl with
      | root hroot =>
          obtain ⟨hdr', hhdr', hzero⟩ := linkOf_root_iff.mp hroot
          rw [hhdr] at hhdr'
          cases hhdr'
          exact absurd (hprev ▸ hzero) hne
      | child hup _ =>
          obtain ⟨hdr', phdr, hhdr', -, hphdr, hhash⟩ := hs.index.up_parent_iff.mp hup
          rw [hhdr] at hhdr'
          cases hhdr'
          have heq := hH.hash_inj (hs.index.mem hphdr) hb (hhash.trans hprev)
          rw [← hs.index.id_eq hphdr, heq, hnew] at hphdr
          cases hphdr

/-- A purge leaves no trace exactly when the block was unknown, nothing waited
for it and the recomputed maps are the old ones. -/
theorem noTrace_purge (hH : CollisionFree c H) (hs : s.Coherent c p H) (hb : blk.header ∈ H)
    {path : List Hash512} (hcand : Candidate c (s.cacheBlock c env blk) blk path) :
    NoTrace c s (purgeCachedSubtree p env c (s.cacheBlock c env blk) (blk.header.powHash c)) blk ↔
      s.index.lookup (blk.header.powHash c) = none ∧
        (s.children.lookup (blk.header.hash c)).getD [] = [] ∧ s.Settled := by
  have hcoh : (s.cacheBlock c env blk).Coherent c p H := hs.cacheBlock hH hb
  have hself : (s.cacheBlock c env blk).index.lookup (blk.header.powHash c) = some blk.header :=
    cacheBlock_lookup_self hH hs.index hb
  have hheight : s.heightIndex.lookup (blk.header.powHash c) = none :=
    hcoh.heightIndex_none hcand.fresh
  have hkids : (s.cacheBlock c env blk).kidsOf c (blk.header.powHash c)
      = (s.children.lookup (blk.header.hash c)).getD [] := by
    rw [kidsOf, hself]
    rfl
  have hpurged := hcoh.purge env hH hcand
  have hcoh' := hpurged.coherent hcoh
  generalize purgeCachedSubtree p env c (s.cacheBlock c env blk) (blk.header.powHash c) = s'
    at hpurged hcoh'
  obtain ⟨mid, rebuilt, files, hmid, hrebuilt, rfl⟩ := hpurged.steps
  have hgone : mid.index.lookup (blk.header.powHash c) = none := by
    cases hl : mid.index.lookup (blk.header.powHash c) with
    | none => rfl
    | some hdr =>
        obtain ⟨h, hh⟩ := (hmid.index.mp hl).2 (mem_purgeList_root _ _ _)
        have hh' : s.heightIndex.lookup (blk.header.powHash c) = some h := hh
        rw [hheight] at hh'
        cases hh'
  have hmap : mid.heightMap = s.heightMap := hmid.heightMap
  constructor
  · intro h
    have hindex : mid.index = s.index := by rw [← h.index, hrebuilt.only]
    have hlink : mid.linkIndex = s.linkIndex := by rw [← h.linkIndex, hrebuilt.only]
    have hnew : s.index.lookup (blk.header.powHash c) = none := by rw [← hindex]; exact hgone
    have hpath : mid.PathTo = s.PathTo := by rw [PathTo, PathTo, up_congr hindex hlink]
    refine ⟨hnew, ?_, ?_, ?_⟩
    · by_contra hne
      obtain ⟨k, hk⟩ := List.exists_mem_of_ne_nil _ hne
      obtain ⟨hdr, hhdr, -⟩ := hs.children hk
      rw [← hindex] at hhdr
      obtain ⟨j, hj⟩ := (hmid.index.mp hhdr).2 (mem_purgeList_kid (hkids ▸ hk))
      have hj' : s.heightIndex.lookup k = some j := hj
      rw [hs.kid_height hH hb hnew hk] at hj'
      cases hj'
    · intro id l hl
      refine ⟨mid.pathWork p l, ?_⟩
      rw [← h.chainWork]
      exact hrebuilt.chainWork.mpr ⟨l, hpath ▸ hl, rfl⟩
    · intro id j
      rw [← h.heightIndex, ← hmap, ← hpath]
      exact hrebuilt.heightIndex
  · rintro ⟨hnew, hnone, hsettled⟩
    have hlist : (s.cacheBlock c env blk).purgeList c (blk.header.powHash c)
        = [blk.header.powHash c] := purgeList_childless (hkids.trans hnone)
    rw [hlist] at hmid
    have hlookup : ∀ {j hdr}, mid.index.lookup j = some hdr ↔ s.index.lookup j = some hdr := by
      intro j hdr
      rw [hmid.index, cacheBlock_lookup hH hs.index hb]
      by_cases hj : j = blk.header.powHash c
      · subst hj
        rw [hnew]
        constructor
        · rintro ⟨-, hkeep⟩
          obtain ⟨k, hk⟩ := hkeep (by simp)
          have hk' : s.heightIndex.lookup (blk.header.powHash c) = some k := hk
          rw [hheight] at hk'
          cases hk'
        · intro h; cases h
      · rw [if_neg hj]
        simp [hj]
    have hindex : mid.index = s.index := Finmap.ext_lookup fun j => by
      refine Option.ext fun hdr => ?_
      exact hlookup
    have hlink : mid.linkIndex = s.linkIndex := Finmap.ext_lookup fun link => by
      refine Option.ext fun id => ?_
      rw [hmid.indexOk.link, hs.index.link, hindex]
    have hpath : mid.PathTo = s.PathTo := by rw [PathTo, PathTo, up_congr hindex hlink]
    have hwork : ∀ l, mid.pathWork p l = s.pathWork p l :=
      fun l => pathWork_congr fun _ _ => by rw [hindex]
    have hchainWork : rebuilt.chainWork = s.chainWork := Finmap.ext_lookup fun id => by
      refine Option.ext fun w => ?_
      rw [hrebuilt.chainWork, hpath]
      simp only [hwork]
      constructor
      · rintro ⟨l, hl, rfl⟩
        obtain ⟨w, hw⟩ := hsettled.work hl
        obtain ⟨l', hl', hwl, -⟩ := hs.work hw
        rw [hw, hwl, Forest.PathTo.unique hl' hl]
      · intro hw
        obtain ⟨l, hl, hwl, -⟩ := hs.work hw
        exact ⟨l, hl, hwl⟩
    have hheightIndex : rebuilt.heightIndex = s.heightIndex := Finmap.ext_lookup fun id => by
      refine Option.ext fun k => ?_
      rw [hrebuilt.heightIndex, hsettled.height, hpath, hmap]
    have honly := hrebuilt.only
    refine
      { bestHeight := by rw [honly, hmid.only]; rfl
        tipHash := by rw [honly, hmid.only]; rfl
        heightMap := by rw [honly]; exact hmap
        utxo := by rw [honly, hmid.only]; rfl
        mempool := by rw [honly, hmid.only]; rfl
        chainWork := hchainWork
        index := by rw [honly]; exact hindex
        linkIndex := by rw [honly]; exact hlink
        heightIndex := hheightIndex
        unknown := fun _ => ⟨(unknown_iff hH hcoh'.index hb).mpr (by rw [honly]; exact hgone), ?_⟩ }
    intro id b hfile
    rw [honly] at hfile
    obtain ⟨hcached, hkeep⟩ := hmid.hashFiles.mp hfile
    by_cases hid : id = blk.header.powHash c
    · subst hid
      obtain ⟨k, hk⟩ := hkeep (by simp)
      have hk' : s.heightIndex.lookup (blk.header.powHash c) = some k := hk
      rw [hheight] at hk'
      cases hk'
    · rw [Blockchain.cacheBlock] at hcached
      simp only [BlockStore.storeByHash] at hcached
      split at hcached
      · simpa only [FinMap.lookup_insert_ite, if_neg hid] using hcached
      · exact hcached

/-- A rejection leaves no trace exactly when it is one of the clean ones. -/
theorem noTrace_iff (hH : CollisionFree c H) (h : Reachable c p H (Rules.any c p H) s)
    (hb : blk.header ∈ H) {fuel : Nat}
    (hacc : acceptBlock c p env skip fuel s blk = some (false, s')) :
    NoTrace c s s' blk ↔ s.RejectsCleanly c p env skip blk := by
  have hs := h.any_coherent hH
  obtain ⟨hfalse, rfl⟩ := acceptBlock_false hacc
  have hout : Outcome c p env skip s blk (s.acceptOne c p env skip blk).1
      (s.acceptOne c p env skip blk).2 := acceptOne_outcome hH hs hb
  generalize s.acceptOne c p env skip blk = res at hfalse hout
  obtain ⟨v, s'⟩ := res
  simp only at hfalse hout ⊢
  cases hout with
  | rejected hcheck _ =>
      refine ⟨fun _ => Or.inl (by rw [hcheck]; simp), fun _ => ?_⟩
      exact ⟨rfl, rfl, rfl, rfl, rfl, rfl, rfl, rfl, rfl, fun hu => ⟨hu, fun _ _ hf => hf⟩⟩
  | processed _ _ => cases hfalse
  | orphan _ _ _ _ => cases hfalse
  | side _ _ _ _ => cases hfalse
  | switched _ _ _ _ _ _ => cases hfalse
  | @invalid path hcheck hcand hinvalid =>
      have hnot : ¬ s.CandidateValid c p env skip blk := by
        rintro ⟨path', hpath', hvalid⟩
        rw [buildPathToGenesis_iff] at hpath'
        rw [hpath'.unique hcand.linked] at hvalid
        exact hinvalid hvalid
      rw [noTrace_purge hH hs hb hcand]
      constructor
      · rintro ⟨hnew, hnone, hsettled⟩
        exact Or.inr (Or.inr ⟨hnot, hnew, hnone, hsettled⟩)
      · rintro (h | ⟨h, -⟩ | ⟨-, h⟩)
        · exact absurd hcheck h
        · exact absurd h hnot
        · exact h
  | refused hcheck hcand hvalid _ _ _ => exact noTrace_valid hH hs hb hcheck hcand hvalid _
  | failed hcheck hcand hvalid _ _ hact =>
      obtain ⟨-, store, rfl⟩ := (hs.cacheBlock hH hb).failed hcand.linked hact
      exact noTrace_valid hH hs hb hcheck hcand hvalid store

open Regtest in
/-- A block whose transactions are not those of its header. -/
theorem noTrace_badMerkle : ∃ s s', after [a1] = some s ∧
    acceptBlock crypto .regtest Regtest.env false 1 s a2Forged = some (false, s') ∧
    NoTrace crypto s s' a2Forged := by
  have hrun : ((after [a1]).bind fun s =>
      (acceptBlock crypto .regtest Regtest.env false 1 s a2Forged).map fun res =>
          (res.1, s.statelessCheck crypto .regtest Regtest.env false a2Forged))
      = some (false, some .badMerkle) := by decide +kernel
  obtain ⟨s, hs, hrest⟩ := Option.bind_eq_some_iff.mp hrun
  obtain ⟨⟨r, s'⟩, hacc, heq⟩ := Option.map_eq_some_iff.mp hrest
  obtain ⟨rfl, hcheck⟩ := Prod.mk.inj heq
  have hreach := reachable_after (by decide) hs
  have hmem : a2Forged.header ∈ Regtest.H := by decide
  refine ⟨s, s', hs, hacc, (noTrace_iff collisionFree hreach hmem hacc).mpr (Or.inl ?_)⟩
  rw [hcheck]
  simp

open Regtest in
/-- Three blocks are active and three are on a side branch, when a fourth one
comes there: the reorganisation is too deep, and the block is known. -/
theorem not_noTrace_deepReorg : ∃ s s', Reachable crypto .regtest Regtest.H Regtest.rules s ∧
    s.Unknown crypto b4 ∧
    acceptBlock crypto .regtest Regtest.env false 10 s b4 = some (false, s') ∧
    ¬ NoTrace crypto s s' b4 := by
  have hrun : ((after [a1, a2, a3, b1, b2, b3]).bind fun s =>
      (acceptBlock crypto .regtest Regtest.env false 10 s b4).map fun res =>
          (res.1, (s.index.lookup (b4.header.powHash crypto)).isSome,
            (res.2.index.lookup (b4.header.powHash crypto)).isSome))
      = some (false, false, true) := by decide +kernel
  obtain ⟨s, hs, hrest⟩ := Option.bind_eq_some_iff.mp hrun
  obtain ⟨⟨r, s'⟩, hacc, heq⟩ := Option.map_eq_some_iff.mp hrest
  simp only [Prod.mk.injEq, Option.isSome_eq_false_iff, Option.isNone_iff_eq_none] at heq
  obtain ⟨rfl, hnew, hknown⟩ := heq
  have hreach := reachable_after (by decide) hs
  have hmem : b4.header ∈ Regtest.H := by decide
  refine ⟨s, s', hreach, ?_, hacc, fun h => ?_⟩
  · exact (unknown_iff collisionFree (hreach.any_coherent collisionFree).index hmem).mpr hnew
  · rw [h.index, hnew] at hknown
    cases hknown

end Blockchain

end Cryptex
