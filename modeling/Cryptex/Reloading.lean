import Cryptex.Run

/-!
# Which headers an opening keeps

The constructor loads the stored headers, drops those of the chain that lie
behind its valid part, and changes no other. `loadedLength` is the length of
the valid part.
-/

namespace Cryptex

open Forest

namespace Blockchain

variable {c : Crypto} {p : ChainParams} {env : Env} {skip : Bool} {H : Set BlockHeader}
  {s s' : Blockchain}

/-- How much of a loaded chain the constructor finds valid. -/
def loadedLength (c : Crypto) (p : ChainParams) (env : Env) (s : Blockchain) : Nat :=
  ((loadState c env s).validatedPrefixLength c p env false s.heightMap).length

theorem foldl_dropOne_index {id : Hash512} {hdr : BlockHeader} : ∀ (ids : List Hash512)
    {s : Blockchain}, (ids.foldl (dropOne c) s).index.lookup id = some hdr →
      id ∉ ids ∧ s.index.lookup id = some hdr
  | [], _, h => ⟨List.not_mem_nil, h⟩
  | j :: rest, s, h => by
      obtain ⟨hnot, hj⟩ := foldl_dropOne_index rest (s := dropOne c s j) h
      obtain ⟨hne, hid⟩ := lookup_erase_iff.mp hj
      refine ⟨fun hmem => ?_, hid⟩
      rcases List.mem_cons.mp hmem with heq | hmem
      · exact hne heq
      · exact hnot hmem

theorem activatePath_index (p : ChainParams) (env : Env) (s : Blockchain) (path : List Hash512)
    (utxo : UTXOSet) (bits : UInt32) : (activatePath p env s path utxo bits).2.index = s.index := by
  cases h : activatePath p env s path utxo bits with
  | mk ok t =>
      cases ok with
      | true =>
          obtain ⟨blocks, store, files, cp, -, -, rfl, -⟩ := activatePath_true h
          rfl
      | false =>
          rcases activatePath_false h with rfl | ⟨blocks, store, -, -, rfl⟩ <;> rfl

/-- Recomputing the maps changes nothing else. -/
theorem rebuildKnownBlockState_only (p : ChainParams) (env : Env) (s : Blockchain) :
    rebuildKnownBlockState p env s = { s with
      children := (rebuildKnownBlockState p env s).children
      chainWork := (rebuildKnownBlockState p env s).chainWork
      blockHeight := (rebuildKnownBlockState p env s).blockHeight
      heightIndex := (rebuildKnownBlockState p env s).heightIndex } := by
  refine Saturate.run_invariant (I := fun t : Blockchain => t = { s with
    children := t.children
    chainWork := t.chainWork
    blockHeight := t.blockHeight
    heightIndex := t.heightIndex }) ?_ _ rfl
  rintro t ⟨id, hdr⟩ t' - ht hstep
  obtain ⟨-, ⟨-, rfl⟩ | ⟨_, _, _, -, -, -, -, rfl⟩⟩ := creditStep_some hstep <;> rw [ht]

/-- A repair keeps no header behind the valid part of the chain and adds none. -/
theorem repair_index {id : Hash512} {hdr : BlockHeader} {n : Nat}
    (hn : (s.validatedPrefixLength c p env false s.heightMap).length = n)
    (h : (repairActiveChainIfNeeded c p env s).2.index.lookup id = some hdr) :
    s.index.lookup id = some hdr ∧ (n ≠ 0 → id ∉ s.heightMap.drop n) := by
  rw [repairActiveChainIfNeeded] at h
  simp only [hn] at h
  split at h
  · next hnil => exact ⟨h, fun _ => by simp [hnil]⟩
  · split at h
    · next hfull => exact ⟨h, fun _ => by simp [hfull]⟩
    · split at h
      · next hzero => exact ⟨h, fun hne => absurd hzero hne⟩
      · have hindex := activatePath_index p env ((s.heightMap.drop n).foldl (dropOne c) s)
          (s.heightMap.take n) (s.validatedPrefixLength c p env false s.heightMap).utxo
          (s.validatedPrefixLength c p env false s.heightMap).tipBits
        have hkept : ((s.heightMap.drop n).foldl (dropOne c) s).index.lookup id = some hdr := by
          rw [← hindex]
          split at h
          · next heq => rw [heq]; exact h
          · next t heq =>
              have hindexT : (rebuildKnownBlockState p env t).index = t.index := by
                rw [rebuildKnownBlockState_only]
              rw [heq, ← hindexT]
              split at h
              · exact h
              · split at h
                · rw [(frame_revokeSyncApproval).only] at h
                  exact h
                · exact h
        obtain ⟨hnot, hid⟩ := foldl_dropOne_index _ hkept
        exact ⟨hid, fun _ => hnot⟩

/-- The headers of an opened directory were loaded, and are not behind the
valid part of its chain. -/
theorem openDir_index {dir : DataDir} (h : openDir c p env dir = some s) :
    ∃ t, loadChain c p env dir = some t ∧ ∀ id hdr, s.index.lookup id = some hdr →
      t.index.lookup id = some hdr ∧
        (loadedLength c p env t ≠ 0 → id ∉ t.heightMap.drop (loadedLength c p env t)) := by
  rw [openDir_eq] at h
  obtain ⟨t, hload, hfinish⟩ := Option.bind_eq_some_iff.mp h
  refine ⟨t, hload, fun id hdr hid => ?_⟩
  have hstate : Frame t (loadState c env t) := frame_loadState
  have hrepaired : (repairActiveChainIfNeeded c p env (loadState c env t)).2.index.lookup id
      = some hdr := by
    obtain ⟨hframe, -⟩ := finish_frame hfinish
    rw [hframe.only] at hid
    unfold repairHeightFilesIfNeeded at hid
    generalize restoreHeightFiles env _ 0 _ = res at hid
    obtain ⟨store, repaired⟩ := res
    simp only at hid
    split at hid <;> exact hid
  have hn : ((loadState c env t).validatedPrefixLength c p env false
      (loadState c env t).heightMap).length = loadedLength c p env t := by
    rw [loadedLength, hstate.heightMap]
  obtain ⟨hloaded, hkept⟩ := repair_index hn hrepaired
  rw [hstate.heightMap] at hkept
  rw [show (loadState c env t).index = t.index by rw [hstate.only]] at hloaded
  exact ⟨hloaded, hkept⟩

theorem loadChain_opened (hH : CollisionFree c H) {dir : DataDir} (hdir : Bootable c p H dir) :
    ∃ t, loadChain c p env dir = some t ∧ t.Opened c p H := by
  rcases hdir with ⟨rfl, hg⟩ | ⟨ids, entries, hstored⟩
  · obtain ⟨f, hload, hf⟩ := loadChain_empty c p env
    exact ⟨_, hload, hf.opened hg⟩
  · obtain ⟨r, hload, hr⟩ := loadChain_ready (p := p) hH hstored
    exact ⟨_, hload, hr.opened hH hstored⟩

/-- The paths of an opened directory were loaded, and no id on them was dropped. -/
theorem openDir_pathTo (hH : CollisionFree c H) {dir : DataDir} (hdir : CanOpen c p H env dir)
    (h : openDir c p env dir = some s) : ∃ t, loadChain c p env dir = some t ∧
      ∀ id l, s.PathTo id l → t.PathTo id l ∧ (loadedLength c p env t ≠ 0 →
        ∀ j ∈ l, j ∉ t.heightMap.drop (loadedLength c p env t)) := by
  obtain ⟨t, hload, hindex⟩ := openDir_index h
  obtain ⟨t', hload', hopened⟩ := loadChain_opened hH hdir.1
  rw [hload] at hload'
  cases hload'
  refine ⟨t, hload, fun id l hl => ⟨?_, fun hne j hj => ?_⟩⟩
  · exact (openDir_coherent hH hdir h).index.pathTo hopened.indexOk hl
      fun j _ hdr hj => (hindex j hdr hj).1
  · obtain ⟨hdr, hjs⟩ := PathTo.lookup hl hj
    exact (hindex j hdr hjs).2 hne

/-- A repair leaves the chain or cuts it behind its valid part. -/
theorem repair_heightMap {n : Nat}
    (hn : (s.validatedPrefixLength c p env false s.heightMap).length = n) :
    (repairActiveChainIfNeeded c p env s).2.heightMap = s.heightMap ∨
      (n ≠ 0 ∧ (repairActiveChainIfNeeded c p env s).2.heightMap = s.heightMap.take n) := by
  have hdropped : ∀ (ids : List Hash512) (t : Blockchain),
      (ids.foldl (dropOne c) t).heightMap = t.heightMap := by
    intro ids
    induction ids with
    | nil => intro t; rfl
    | cons id rest ih => intro t; exact ih (dropOne c t id)
  have hrebuilt : ∀ t : Blockchain, (rebuildKnownBlockState p env t).heightMap = t.heightMap :=
    fun t => by rw [rebuildKnownBlockState_only]
  rw [repairActiveChainIfNeeded]
  simp only [hn]
  split
  · exact Or.inl rfl
  · split
    · exact Or.inl rfl
    · split
      · exact Or.inl rfl
      · next hzero =>
          split
          · next t heq =>
              left
              rcases activatePath_false heq with rfl | ⟨blocks, store, -, -, rfl⟩
              · exact hdropped _ s
              · exact hdropped _ s
          · next t heq =>
              right
              refine ⟨hzero, ?_⟩
              obtain ⟨blocks, store, files, cp, -, -, rfl, -⟩ := activatePath_true heq
              split
              · exact hrebuilt _
              · split
                · rw [(frame_revokeSyncApproval).only]
                  exact hrebuilt _
                · exact hrebuilt _

/-- What an opened directory keeps of the stored chain. -/
theorem openDir_heightMap {dir : DataDir} (h : openDir c p env dir = some s) {t : Blockchain}
    (hload : loadChain c p env dir = some t) : s.heightMap = t.heightMap ∨
      (loadedLength c p env t ≠ 0 ∧
        s.heightMap = t.heightMap.take (loadedLength c p env t)) := by
  rw [openDir_eq, hload, Option.bind_some] at h
  have hstate : Frame t (loadState c env t) := frame_loadState
  have hn : ((loadState c env t).validatedPrefixLength c p env false
      (loadState c env t).heightMap).length = loadedLength c p env t := by
    rw [loadedLength, hstate.heightMap]
  have hmap : s.heightMap
      = (repairActiveChainIfNeeded c p env (loadState c env t)).2.heightMap := by
    obtain ⟨hframe, -⟩ := finish_frame h
    rw [hframe.heightMap]
    unfold repairHeightFilesIfNeeded
    generalize restoreHeightFiles env _ 0 _ = res
    obtain ⟨store, repaired⟩ := res
    simp only
    split <;> rfl
  rw [hmap, ← hstate.heightMap]
  exact repair_heightMap hn

/-- An id of the stored chain that was not dropped is still active. -/
theorem openDir_active {dir : DataDir} (h : openDir c p env dir = some s) {t : Blockchain}
    (hload : loadChain c p env dir = some t) {id : Hash512} (hid : id ∈ t.heightMap)
    (hkept : loadedLength c p env t ≠ 0 → id ∉ t.heightMap.drop (loadedLength c p env t)) :
    id ∈ s.heightMap := by
  rcases openDir_heightMap h hload with hmap | ⟨hne, hmap⟩
  · rw [hmap]
    exact hid
  · rw [hmap]
    rw [← List.take_append_drop (loadedLength c p env t) t.heightMap] at hid
    rcases List.mem_append.mp hid with hid | hid
    · exact hid
    · exact absurd hid (hkept hne)

/-- The maps of an opened directory are as they were recomputed. -/
theorem openDir_rebuilt (hH : CollisionFree c H) {dir : DataDir} (hdir : CanOpen c p H env dir)
    (h : openDir c p env dir = some s) : Rebuilt p s s := by
  obtain ⟨hboot, hempty | hw⟩ := hdir
  · rcases hboot with ⟨-, hg⟩ | ⟨ids, entries, hstored⟩
    · rw [hempty] at h
      obtain ⟨f, -, -, -, hrebuilt⟩ := openDir_empty hg h
      exact hrebuilt
    · rw [hempty] at hstored
      cases hstored.index
  · exact (openDir_ordered hH hw hboot h).rebuilt

/-- The only path of a new chain is that of its genesis. -/
theorem Founded.pathTo_single {f : Blockchain} (hf : Founded c p env f) (h : Rebuilt p f s)
    {id : Hash512} {l : List Hash512} (hl : s.PathTo id l) :
    l = [(Block.createGenesis c p).header.powHash c] := by
  have hup : s.up = f.up := by rw [h.only]; rfl
  have hl' : f.PathTo id l := by
    rw [PathTo, ← hup]
    exact hl
  obtain ⟨hdr, hhdr⟩ := PathTo.lookup hl' (Forest.PathTo.mem_self hl')
  obtain ⟨rfl, rfl⟩ := hf.lookup.mp hhdr
  cases hl' with
  | root _ => rfl
  | child hparent _ =>
      obtain ⟨hdr, hhdr', hprev, -⟩ := linkOf_parent_iff.mp hparent
      rw [hhdr] at hhdr'
      cases hhdr'
      exact absurd createGenesis_prev hprev

/-! ## The block files -/

/-- The height files that are left of a stored chain of `len` blocks, the
first `n` of which are valid. -/
def keptStore (st : BlockStore) (n len : Nat) : BlockStore :=
  if n = 0 ∨ n = len then st else st.pruneHeightFilesAfter (n - 1)

/-- Writing the blocks that the height files hold already changes none. -/
theorem writePath_same {w : Writable} {st st' : BlockStore} {path : List Hash512}
    {blocks : List Block} (hlen : path.length = blocks.length)
    (h : writePath w st 0 (path.zip blocks) = (st', true))
    (hsame : ∀ k, k < path.length → st.load k = blocks[k]?) : st'.heightFiles = st.heightFiles := by
  refine Finmap.ext_lookup fun k => ?_
  by_cases hk : k < path.length
  · have hid := List.getElem?_eq_getElem hk
    have hb := List.getElem?_eq_getElem (show k < blocks.length by omega)
    have hfile := writePath_height h (List.getElem?_zip_eq_some (z := (_, _)) |>.mpr ⟨hid, hb⟩)
    rw [Nat.zero_add] at hfile
    rw [hfile]
    exact ((hsame k hk).trans hb).symm
  · exact writePath_height_of_ge h (by rw [List.length_zip]; omega)

/-- What a repair does to the block files and the headers of a complete chain
that is valid up to `n`. -/
structure Repaired (n : Nat) (s s' : Blockchain) : Prop where
  load : ∀ k, s'.store.load k = (keptStore s.store n s.heightMap.length).load k
  other : ∀ id, id ∉ s.heightMap → s'.store.loadByHash id = s.store.loadByHash id
  dropped : n ≠ 0 → ∀ id ∈ s.heightMap.drop n, s'.store.loadByHash id = none
  keep : ∀ id hdr, s.index.lookup id = some hdr → (n ≠ 0 → id ∉ s.heightMap.drop n) →
    s'.index.lookup id = some hdr

theorem repair_store (hH : CollisionFree c H) (hw : AllWritable env) (ho : s.Opened c p H)
    (hd : s.Described c) (hpool : s.PoolActive) {n : Nat}
    (hn : (s.validatedPrefixLength c p env false s.heightMap).length = n) :
    Repaired n s (repairActiveChainIfNeeded c p env s).2 := by
  have hsame : n = 0 ∨ n = s.heightMap.length → Repaired n s s := by
    intro hcase
    refine ⟨fun k => by rw [keptStore, if_pos hcase], fun id _ => rfl, fun hne id hid => ?_,
      fun id hdr hid _ => hid⟩
    rcases hcase with hzero | hfull
    · exact absurd hzero hne
    · rw [hfull, List.drop_length] at hid
      cases hid
  rw [repairActiveChainIfNeeded, if_neg ho.coherent.heightMap_ne_nil]
  simp only [hn]
  by_cases hfull : n = s.heightMap.length
  · rw [if_pos hfull]
    exact hsame (Or.inr hfull)
  · rw [if_neg hfull]
    by_cases hzero : n = 0
    · rw [if_pos hzero]
      exact hsame (Or.inl hzero)
    · rw [if_neg hzero]
      have hle : n ≤ s.heightMap.length := by
        obtain ⟨blocks, mid, -, -, hlen, hle, -⟩ :=
          validatedPrefix_blocks c p env false s s.heightMap
        omega
      have hpos : 0 < n := Nat.pos_of_ne_zero hzero
      have hlt : n < s.heightMap.length := by omega
      have hdrop : Dropped c H (s.heightMap.drop n) s ((s.heightMap.drop n).foldl (dropOne c) s) :=
        (Dropped.refl ho.indexOk).foldl hH _
      generalize (s.heightMap.drop n).foldl (dropOne c) s = mid at hdrop
      obtain ⟨blocks, hpre⟩ := hdrop.prefix ho hd hpool hpos hlt
      obtain ⟨t, ht⟩ := activatePath_writable (p := p) hw hpre.blocksOf
        (s.validatedPrefixLength c p env false s.heightMap).utxo
        (s.validatedPrefixLength c p env false s.heightMap).tipBits
      rw [ht]
      simp only
      obtain ⟨last, hpath⟩ := hpre.path
      have hact := activatePath_activated (Forest.PathTo.nodup hpath) hpre.blocksOf ht
      have hindex : t.index = mid.index := by rw [hact.only]; rfl
      have htakeLen : (s.heightMap.take n).length = n := by
        rw [List.length_take]
        omega
      -- what follows the activation changes neither files nor headers
      suffices hgoal : ∀ r : Blockchain, r.store = t.store → r.index = t.index →
          Repaired n s r by
        have honly := rebuildKnownBlockState_only p env t
        split
        · exact hgoal _ (by rw [honly]) (by rw [honly])
        · split
          · exact hgoal _ (by rw [(frame_revokeSyncApproval).store, honly])
              (by rw [(frame_revokeSyncApproval).only, honly])
          · exact hgoal _ (by rw [honly]) (by rw [honly])
      intro r hstore hindexR
      have hnot : ∀ {id}, id ∉ s.heightMap → id ∉ s.heightMap.take n ∧ id ∉ s.heightMap.drop n :=
        fun hid => ⟨fun hmem => hid (List.mem_of_mem_take hmem),
          fun hmem => hid (List.mem_of_mem_drop hmem)⟩
      refine ⟨fun k => ?_, fun id hid => ?_, fun _ id hid => ?_, fun id hdr hid hkept => ?_⟩
      · obtain ⟨blocks', store, files, cp, hm, hwrite, heq, -⟩ := activatePath_true ht
        rw [hpre.blocksOf.mapM_eq] at hm
        cases hm
        have hfiles : store.heightFiles = s.store.heightFiles := by
          rw [← hdrop.heightFiles]
          refine writePath_same hpre.blocksOf.length_eq hwrite fun k hk => ?_
          rw [htakeLen] at hk
          rw [← hpre.load hk, BlockStore.load, hdrop.heightFiles]
          rfl
        have htstore : t.store = store.pruneHeightFilesAfter (n - 1) := by
          rw [heq]
          show store.pruneHeightFilesAfter ((s.heightMap.take n).length - 1) = _
          rw [htakeLen]
        rw [hstore, htstore, keptStore, if_neg (by omega)]
        simp only [BlockStore.load, BlockStore.pruneHeightFilesAfter, hfiles]
      · rw [hstore]
        have hold : t.store.hashFiles.lookup id = mid.store.hashFiles.lookup id :=
          hact.hashOld (hnot hid).1
        have hmid : mid.store.hashFiles.lookup id = s.store.hashFiles.lookup id := by
          refine Option.ext fun b => ?_
          rw [hdrop.hashFiles]
          exact and_iff_right (hnot hid).2
        exact hold.trans hmid
      · rw [hstore]
        have hold : t.store.hashFiles.lookup id = mid.store.hashFiles.lookup id := by
          refine hact.hashOld fun hmem => ?_
          exact List.disjoint_take_drop (Forest.PathTo.nodup ho.coherent.active) (Nat.le_refl n)
            hmem hid
        refine hold.trans (Option.eq_none_iff_forall_ne_some.mpr fun b hb => ?_)
        exact (hdrop.hashFiles.mp hb).1 hid
      · rw [hindexR, hindex]
        exact hdrop.index.mpr ⟨hkept hzero, hid⟩

/-- What an opened directory keeps of the files and headers of its stored chain. -/
theorem openDir_files (hH : CollisionFree c H) (hw : AllWritable env) {dir : DataDir}
    {ids : List Hash512} {entries : List (Hash512 × BlockHeader)}
    (hstored : StoredChain c H dir ids entries) (h : openDir c p env dir = some s) :
    ∃ t, loadChain c p env dir = some t ∧ t.heightMap = ids ∧
      (∀ k, s.store.load k = (keptStore dir.store (loadedLength c p env t) ids.length).load k) ∧
      (∀ id, id ∉ ids → s.store.loadByHash id = dir.store.loadByHash id) ∧
      (loadedLength c p env t ≠ 0 → ∀ id ∈ ids.drop (loadedLength c p env t),
        s.store.loadByHash id = none) ∧
      ∀ id hdr, t.index.lookup id = some hdr →
        (loadedLength c p env t ≠ 0 → id ∉ ids.drop (loadedLength c p env t)) →
        s.index.lookup id = some hdr := by
  obtain ⟨u, tip, tipHdr, hload, -, hu, -⟩ := loadChain_stored (p := p) hH hstored
  obtain ⟨r, hload', hr⟩ := loadChain_ready (p := p) hH hstored
  generalize ht : rebuildKnownBlockState p env r = t at hload'
  have hopened : t.Opened c p H := ht ▸ hr.opened hH hstored
  have hdescribed : t.Described c := ht ▸ hr.described hstored
  have hpool : t.PoolActive := ht ▸ hr.poolActive
  have honly : t = { r with
      children := t.children
      chainWork := t.chainWork
      blockHeight := t.blockHeight
      heightIndex := t.heightIndex } := ht ▸ rebuildKnownBlockState_only p env r
  have hmap : t.heightMap = ids := by
    rw [honly]
    exact hr.loading.heightMap
  have hheight : t.store.heightFiles = dir.store.heightFiles := by
    rw [honly]
    exact hr.heightFiles
  -- only by-hash files of active blocks were written
  have hother : ∀ id, id ∉ ids → t.store.loadByHash id = dir.store.loadByHash id := by
    intro id hid
    rw [SameHeaders] at hu
    have hstore : u.store = dir.store := by rw [hu]; rfl
    rw [hload] at hload'
    have hcached : t.store = (cacheActive c env u (List.range ids.length)).store := by
      rw [← Option.some.inj hload', rebuildKnownBlockState_only]
    rw [hcached, cacheActive_other, hstore]
    intro k hk b hb heq
    rw [BlockStore.load, hstore] at hb
    have hget := List.getElem?_eq_getElem (List.mem_range.mp hk)
    rw [(hstored.heightFiles hb).2 _ hget] at heq
    exact hid (heq ▸ List.getElem_mem _)
  have hstate : Frame t (loadState c env t) := frame_loadState
  have hn : ((loadState c env t).validatedPrefixLength c p env false
      (loadState c env t).heightMap).length = loadedLength c p env t := by
    rw [loadedLength, hstate.heightMap]
  obtain ⟨hrload, hrother, hrdropped, hrkeep⟩ := repair_store hH hw (hstate.opened hopened)
    (hstate.described hdescribed) (hstate.poolActive hpool) hn
  rw [hstate.heightMap, hmap] at hrload hrother hrdropped hrkeep
  -- the height files are complete, so that nothing is restored
  obtain ⟨hstoreS, hindexS⟩ : s.store
        = (repairActiveChainIfNeeded c p env (loadState c env t)).2.store ∧
      s.index = (repairActiveChainIfNeeded c p env (loadState c env t)).2.index := by
    rw [openDir_eq, hload', Option.bind_some] at h
    obtain ⟨hframe, -⟩ := finish_frame h
    have hd₂ : (repairActiveChainIfNeeded c p env (loadState c env t)).2.Described c := by
      rcases repair_cases (p := p) hH hw (hstate.opened hopened) (hstate.described hdescribed)
          (hstate.poolActive hpool) rfl with ⟨hsame, -⟩ | ⟨u, s₂, hcut, hu, hframe₂, -⟩
      · rw [hsame]
        exact hstate.described hdescribed
      · rw [hcut]
        exact hframe₂.described hu.described
    rw [repairHeightFiles_described hd₂] at hframe
    exact ⟨hframe.store, by rw [hframe.only]⟩
  refine ⟨t, hload', hmap, fun k => ?_, fun id hid => ?_, fun hne id hid => ?_,
    fun id hdr hid hkept => ?_⟩
  · rw [hstoreS, hrload, hstate.store]
    simp only [keptStore]
    split
    · rw [BlockStore.load, hheight]
      rfl
    · simp only [BlockStore.load, BlockStore.pruneHeightFilesAfter, hheight]
  · rw [hstoreS, hrother id hid, hstate.store, hother id hid]
  · rw [hstoreS, hrdropped hne id hid]
  · rw [hindexS]
    refine hrkeep id hdr ?_ hkept
    rw [hstate.only]
    exact hid

end Blockchain

end Cryptex
