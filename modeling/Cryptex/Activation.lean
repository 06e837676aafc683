import Cryptex.Outcome

/-!
# Activating a path

The blocks behind a path that was validated in full carry the headers of its
ids: the last one comes from the pool, and each names the one before it. So
activating the path yields a coherent state, whatever the lookups by hash
return elsewhere.
-/

namespace Cryptex

open Forest

namespace Blockchain

variable {c : Crypto} {p : ChainParams} {env : Env} {skip : Bool} {H : Set BlockHeader}
  {s s' : Blockchain}

/-! ## The blocks of a path -/

/-- Every block the lookup finds carries a header of `H`. -/
theorem Coherent.getBlockById_mem (hs : s.Coherent c p H) {id : Hash512} {blk : Block}
    (h : s.getBlockById id = some blk) : blk.header ∈ H := by
  unfold getBlockById at h
  cases hpool : s.blockPool.lookup id with
  | some b =>
      rw [hpool] at h
      cases h
      exact hs.index.mem (hs.index.pool hpool)
  | none =>
      rw [hpool] at h
      simp only at h
      cases hheight : s.heightIndex.lookup id with
      | some height =>
          rw [hheight] at h
          exact hs.stored.1 _ _ h
      | none =>
          rw [hheight] at h
          exact hs.stored.2 _ _ h

/-- The blocks found for the ids of a path, when all of them are found. -/
def BlocksOf (s : Blockchain) (path : List Hash512) (blocks : List Block) : Prop :=
  (path.map fun id => s.getBlockByHash id.toNat) = blocks.map some

theorem BlocksOf.mapM_eq {path : List Hash512} {blocks : List Block}
    (h : s.BlocksOf path blocks) :
    (path.mapM fun id => s.getBlockByHash id.toNat) = some blocks := by
  induction path generalizing blocks with
  | nil =>
      have hnil : blocks = [] := by simpa [BlocksOf] using h.symm
      subst hnil
      rfl
  | cons id path ih =>
      cases blocks with
      | nil => simp [BlocksOf] at h
      | cons b blocks =>
          simp only [BlocksOf, List.map_cons, List.cons.injEq] at h
          rw [List.mapM_cons, h.1, ih h.2]
          rfl

theorem blocksOf_of_mapM {path : List Hash512} {blocks : List Block}
    (h : (path.mapM fun id => s.getBlockByHash id.toNat) = some blocks) :
    s.BlocksOf path blocks := by
  induction path generalizing blocks with
  | nil => cases h; rfl
  | cons id path ih =>
      rw [List.mapM_cons] at h
      cases hb : s.getBlockByHash id.toNat with
      | none => rw [hb] at h; cases h
      | some b =>
          cases hrest : path.mapM fun id => s.getBlockByHash id.toNat with
          | none => rw [hb, hrest] at h; cases h
          | some rest =>
              rw [hb, hrest] at h
              cases h
              rw [BlocksOf, List.map_cons, List.map_cons, hb, ih hrest]

/-- Each id of the path yields its block. -/
theorem BlocksOf.getElem {path : List Hash512} {blocks : List Block} (h : s.BlocksOf path blocks)
    {i : Nat} {j : Hash512} {b : Block} (hj : path[i]? = some j) (hb : blocks[i]? = some b) :
    s.getBlockByHash j.toNat = some b := by
  have hi := congrArg (fun l : List (Option Block) => l[i]?) h
  simpa only [List.getElem?_map, hj, hb, Option.map_some, Option.some.injEq] using hi

theorem BlocksOf.length_eq {path : List Hash512} {blocks : List Block}
    (h : s.BlocksOf path blocks) : path.length = blocks.length := by
  have := congrArg List.length h
  simpa using this

/-- The path is validated in full exactly when its blocks are all found and
accepted in turn. -/
theorem PathValid.accepts {path : List Hash512} (h : s.PathValid c p env skip path) :
    ∃ blocks, s.BlocksOf path blocks ∧
      Accepts c p env.now skip [] ∅ blocks
        (s.validatedPrefixLength c p env skip path).utxo ∧
      (s.validatedPrefixLength c p env skip path).tipBits
        = (blocks.getLast?.map (·.header.bits)).getD s.tipBits := by
  have hlen : (validateBlocks c p env.now skip [] ∅ s.tipBits
      (path.map fun id => s.getBlockByHash id.toNat)).length
        = ([] : List BlockHeader).length + (path.map fun id => s.getBlockByHash id.toNat).length := by
    rw [List.length_nil, List.length_map, Nat.zero_add]
    exact h
  obtain ⟨blocks, hblocks, hacc, hbits⟩ := validateBlocks_full hlen
  exact ⟨blocks, hblocks, hacc, hbits⟩

/-- Where validating a path stopped: the blocks accepted before, and what the
refused block did to the map. -/
theorem validatedPrefix_blocks (c : Crypto) (p : ChainParams) (env : Env) (skip : Bool)
    (s : Blockchain) (path : List Hash512) : ∃ blocks mid,
      s.BlocksOf (path.take (s.validatedPrefixLength c p env skip path).length) blocks ∧
      Accepts c p env.now skip [] ∅ blocks mid ∧
      (s.validatedPrefixLength c p env skip path).length = blocks.length ∧
      blocks.length ≤ path.length ∧
      (s.validatedPrefixLength c p env skip path).tipBits
        = (blocks.getLast?.map (·.header.bits)).getD s.tipBits ∧
      ((s.validatedPrefixLength c p env skip path).utxo = mid ∨
        ∃ id blk failure, path[blocks.length]? = some id ∧
          s.getBlockByHash id.toNat = some blk ∧
          validateBlock c p env.now skip (blocks.map (·.header)) mid blk
            = ((s.validatedPrefixLength c p env skip path).utxo, some failure)) := by
  obtain ⟨blocks, mid, hacc, hlen, htake, hbits, hutxo⟩ := validateBlocks_prefix (c := c) (p := p)
    (path.map fun id => s.getBlockByHash id.toNat) [] ∅ s.tipBits
  have hlen' : (s.validatedPrefixLength c p env skip path).length = blocks.length := by
    rw [validatedPrefixLength, hlen, List.length_nil, Nat.zero_add]
  refine ⟨blocks, mid, ?_, hacc, hlen', ?_, hbits, hutxo.imp_right ?_⟩
  · rw [BlocksOf, hlen', List.map_take]
    exact htake
  · have h := congrArg List.length htake
    rw [List.length_take, List.length_map, List.length_map] at h
    omega
  · rintro ⟨blk, failure, hblk, hrefused⟩
    rw [List.getElem?_map] at hblk
    obtain ⟨id, hid, hfound⟩ := Option.map_eq_some_iff.mp hblk
    exact ⟨id, blk, failure, hid, hfound, hrefused⟩

/-- The blocks have the headers of the ids of the path, in order. -/
abbrev HeadersOf (s : Blockchain) (path : List Hash512) (blocks : List Block) : Prop :=
  List.Forall₂ (fun id b => s.index.lookup id = some b.header) path blocks

/-- Blocks that name one another and end in the header of the last id have
the headers of the whole path. -/
theorem headersOf_of_linked (hH : CollisionFree c H) (hs : s.IndexOk c H) {id : Hash512}
    {path : List Hash512} (hpath : s.PathTo id path) {blocks : List Block}
    (hlen : path.length = blocks.length)
    (hlinked : blocks.IsChain fun b b' => b'.header.prevBlockHash = b.header.hash c)
    (hmem : ∀ b ∈ blocks, b.header ∈ H)
    (hlast : ∀ b, blocks.getLast? = some b → s.index.lookup id = some b.header) :
    s.HeadersOf path blocks := by
  induction hpath generalizing blocks with
  | root _ =>
      obtain ⟨b, rfl⟩ := List.length_eq_one_iff.mp hlen.symm
      exact .cons (hlast b rfl) .nil
  | @child k j l hup hj ih =>
      obtain ⟨init, b, rfl⟩ : ∃ init b, blocks = init ++ [b] := by
        rcases List.eq_nil_or_concat blocks with rfl | ⟨init, b, rfl⟩
        · simp at hlen
        · exact ⟨init, b, by simp⟩
      have hb : s.index.lookup k = some b.header := hlast b (by simp)
      rw [List.isChain_append] at hlinked
      have hinit : s.HeadersOf l init := by
        refine ih (by simpa using hlen) hlinked.1 (fun b' hb' => hmem b' (by simp [hb'])) ?_
        intro b' hb'
        have hprev := hlinked.2.2 b' (by simpa using hb') b (by simp)
        obtain ⟨hdr, phdr, hhdr, -, hphdr, hhash⟩ := hs.up_parent_iff.mp hup
        rw [hb] at hhdr
        cases hhdr
        have heq := hH.hash_inj (hs.mem hphdr)
          (hmem b' (by simp [List.mem_of_getLast? hb'])) (hhash.trans hprev)
        rw [hphdr, heq]
      exact List.rel_append hinit (.cons hb .nil)

/-- A valid path to a block in the pool: its blocks, with the headers of its ids. -/
theorem Coherent.blocks_of_valid (hH : CollisionFree c H) (hs : s.Coherent c p H) {id : Hash512}
    {path : List Hash512} (hpath : s.PathTo id path) {blk : Block}
    (hpool : s.blockPool.lookup id = some blk) (hvalid : s.PathValid c p env skip path) :
    ∃ blocks, s.BlocksOf path blocks ∧ s.HeadersOf path blocks ∧
      Accepts c p env.now skip [] ∅ blocks
        (s.validatedPrefixLength c p env skip path).utxo ∧
      (s.validatedPrefixLength c p env skip path).tipBits = blk.header.bits := by
  obtain ⟨blocks, hblocks, hacc, hbits⟩ := hvalid.accepts
  have hfound : ∀ {i : Nat} {j b}, path[i]? = some j → blocks[i]? = some b →
      s.getBlockById j = some b := by
    intro i j b hj hb
    obtain ⟨hdr, hhdr⟩ := PathTo.lookup hpath (List.mem_of_getElem? hj)
    rw [← getBlockByHash_id hhdr, hblocks.getElem hj hb]
  have hlen := hblocks.length_eq
  have hlastPath := Forest.PathTo.getLast? hpath
  have hpos := Forest.PathTo.length_pos hpath
  have hlast : blocks.getLast? = some blk := by
    rw [List.getLast?_eq_getElem?] at hlastPath ⊢
    rw [← hlen]
    cases hb : blocks[path.length - 1]? with
    | none =>
        have := List.getElem?_eq_none_iff.mp hb
        omega
    | some b =>
        have h := hfound hlastPath hb
        rw [getBlockById, hpool] at h
        exact h.symm
  refine ⟨blocks, hblocks, ?_, hacc, by rw [hbits, hlast]; rfl⟩
  refine headersOf_of_linked hH hs.index hpath hlen hacc.linked ?_ ?_
  · intro b hb
    obtain ⟨i, hi⟩ := List.mem_iff_getElem?.mp hb
    have hlt := (List.getElem?_eq_some_iff.mp hi).1
    exact hs.getBlockById_mem (hfound (List.getElem?_eq_getElem (by omega)) hi)
  · intro b hb
    rw [hlast] at hb
    cases hb
    exact hs.index.pool hpool

/-! ## Work along a path -/

theorem map_fst_workAlong : ∀ {path : List Hash512} {blocks : List Block} (before : Nat),
    path.length = blocks.length →
    (workAlong p before (path.zip blocks)).map Prod.fst = path
  | [], [], _, _ => rfl
  | id :: path, b :: blocks, before, h => by
      simp only [List.zip_cons_cons, workAlong, List.map_cons]
      rw [map_fst_workAlong _ (by simpa using h)]
  | [], b :: blocks, _, h => by simp at h
  | id :: path, [], _, h => by simp at h

theorem mem_workAlong {path : List Hash512} {blocks : List Block} (h : s.HeadersOf path blocks)
    {before : Nat} {i : Nat} {id : Hash512} (hi : path[i]? = some id) :
    (id, before + s.pathWork p (path.take (i + 1))) ∈ workAlong p before (path.zip blocks) := by
  induction h generalizing before i with
  | nil => simp at hi
  | @cons k b path blocks hk hrest ih =>
      have hw : s.pathWork p [k] = blockWork p b.header.bits := by
        rw [pathWork, List.map_singleton, List.sum_singleton, headerWork_of_lookup hk]
      simp only [List.zip_cons_cons, workAlong]
      cases i with
      | zero =>
          simp only [List.getElem?_cons_zero, Option.some.injEq] at hi
          subst hi
          rw [List.take_succ_cons, List.take_zero, hw]
          exact List.mem_cons_self
      | succ i =>
          rw [List.getElem?_cons_succ] at hi
          have hsplit : s.pathWork p (k :: path.take (i + 1))
              = s.pathWork p [k] + s.pathWork p (path.take (i + 1)) := pathWork_append p s [k] _
          rw [List.take_succ_cons, hsplit, hw, ← Nat.add_assoc]
          exact List.mem_cons_of_mem _ (ih hi)

/-! ## The block files -/

theorem writePath_stored {P : Block → Prop} {w : Writable} :
    ∀ {entries : List (Hash512 × Block)} {st st' : BlockStore} {i : Nat} {ok : Bool},
      (∀ e ∈ entries, P e.2) → writePath w st i entries = (st', ok) →
      (∀ h b, st.heightFiles.lookup h = some b → P b) →
      (∀ id b, st.hashFiles.lookup id = some b → P b) →
      (∀ h b, st'.heightFiles.lookup h = some b → P b) ∧
        ∀ id b, st'.hashFiles.lookup id = some b → P b
  | [], st, st', i, ok, _, h, hh, hf => by
      cases h
      exact ⟨hh, hf⟩
  | (id, blk) :: rest, st, st', i, ok, hP, h, hh, hf => by
      have hblk : P blk := hP (id, blk) (by simp)
      have hrest : ∀ e ∈ rest, P e.2 := fun e he => hP e (by simp [he])
      have hins : ∀ h b, (st.heightFiles.insert i blk).lookup h = some b → P b := by
        intro h b hb
        rw [FinMap.lookup_insert_ite] at hb
        split at hb
        · cases hb; exact hblk
        · exact hh h b hb
      have hins' : ∀ j b, (st.hashFiles.insert id blk).lookup j = some b → P b := by
        intro j b hb
        rw [FinMap.lookup_insert_ite] at hb
        split at hb
        · cases hb; exact hblk
        · exact hf j b hb
      rw [writePath, BlockStore.store] at h
      by_cases hw : w (.height i) = true
      · rw [if_pos hw] at h
        simp only [BlockStore.storeByHash] at h
        by_cases hw' : w (.byHash id) = true
        · rw [if_pos hw'] at h
          exact writePath_stored hrest h hins hins'
        · rw [if_neg hw'] at h
          cases h
          exact ⟨hins, hf⟩
      · rw [if_neg hw] at h
        cases h
        exact ⟨hh, hf⟩

/-! ## Activation -/

theorem saveIndex_eq (env : Env) (s : Blockchain) :
    ∃ files, saveIndex env s = { s with files := files } := by
  unfold saveIndex
  split
  · exact ⟨_, rfl⟩
  · exact ⟨s.files, rfl⟩

theorem persistHeaders_eq (env : Env) (s : Blockchain) :
    ∃ files, persistHeaders env s = { s with files := files } := by
  unfold persistHeaders
  split
  · exact ⟨_, rfl⟩
  · exact ⟨s.files, rfl⟩

theorem persistChainstate_eq (env : Env) (s : Blockchain) :
    ∃ files, persistChainstate env s = { s with files := files } := by
  unfold persistChainstate
  split
  · exact ⟨_, rfl⟩
  · exact ⟨s.files, rfl⟩

theorem persistLocalCheckpoint_eq (env : Env) (s : Blockchain) :
    ∃ files, persistLocalCheckpoint env s = { s with files := files } := by
  unfold persistLocalCheckpoint
  split
  · exact ⟨_, rfl⟩
  · exact ⟨s.files, rfl⟩

theorem persistManualCheckpoint_eq (env : Env) (s : Blockchain) :
    ∃ files, persistManualCheckpoint env s = { s with files := files } := by
  unfold persistManualCheckpoint
  split
  · exact ⟨_, rfl⟩
  · exact ⟨s.files, rfl⟩

/-- A pinned checkpoint stays; otherwise the checkpoint is recomputed from
the active chain. -/
theorem refreshLocalCheckpoint_eq (env : Env) (s : Blockchain) :
    ∃ files cp, refreshLocalCheckpoint env s
        = { s with files := files, localCheckpoint := cp } ∧
      (s.manualCheckpointPinned = true → cp = s.localCheckpoint) ∧
      (s.manualCheckpointPinned = false →
        ∀ hash, s.heightMap[checkpointHeight s.bestHeight]? = some hash →
          cp = some (checkpointHeight s.bestHeight, hash)) ∧
      (cp = s.localCheckpoint ∨ ∃ hash, cp = some (checkpointHeight s.bestHeight, hash) ∧
        s.heightMap[checkpointHeight s.bestHeight]? = some hash) := by
  unfold refreshLocalCheckpoint
  by_cases hpin : s.manualCheckpointPinned = true
  · rw [if_pos hpin]
    exact ⟨s.files, s.localCheckpoint, rfl, fun _ => rfl,
      fun hfalse => (by rw [hpin] at hfalse; cases hfalse), Or.inl rfl⟩
  · rw [if_neg hpin]
    simp only
    cases hmap : s.heightMap[checkpointHeight s.bestHeight]? with
    | none =>
        refine ⟨s.files, s.localCheckpoint, rfl, fun _ => rfl, ?_, Or.inl rfl⟩
        intro _ hash hfalse
        cases hfalse
    | some hash =>
        simp only
        split
        · next heq =>
            refine ⟨s.files, s.localCheckpoint, rfl, fun _ => rfl, ?_, Or.inl rfl⟩
            intro _ hash' hhash
            cases hhash
            exact heq
        · obtain ⟨files, hfiles⟩ := persistLocalCheckpoint_eq env
            { s with localCheckpoint := some (checkpointHeight s.bestHeight, hash) }
          refine ⟨files, some (checkpointHeight s.bestHeight, hash), hfiles,
            fun hpin' => absurd hpin' hpin, ?_, Or.inr ⟨hash, rfl, rfl⟩⟩
          intro _ hash' hhash
          cases hhash
          rfl

/-- The two ways in which an activation ends. -/
theorem activatePath_false {path : List Hash512} {utxo : UTXOSet} {bits : UInt32}
    (h : activatePath p env s path utxo bits = (false, s')) :
    s' = s ∨ ∃ blocks store, (path.mapM fun id => s.getBlockByHash id.toNat) = some blocks ∧
      writePath env.canWrite s.store 0 (path.zip blocks) = (store, false) ∧
      s' = { s with store := store } := by
  rw [activatePath] at h
  cases hm : path.mapM fun id => s.getBlockByHash id.toNat with
  | none =>
      rw [hm] at h
      exact Or.inl (congrArg Prod.snd h).symm
  | some blocks =>
      rw [hm] at h
      simp only at h
      cases hw : writePath env.canWrite s.store 0 (path.zip blocks) with
      | mk store ok =>
          rw [hw] at h
          cases ok with
          | true => cases h
          | false => exact Or.inr ⟨blocks, store, rfl, hw, (congrArg Prod.snd h).symm⟩

theorem activatePath_true {path : List Hash512} {utxo : UTXOSet} {bits : UInt32}
    (h : activatePath p env s path utxo bits = (true, s')) :
    ∃ blocks store files cp, (path.mapM fun id => s.getBlockByHash id.toNat) = some blocks ∧
      writePath env.canWrite s.store 0 (path.zip blocks) = (store, true) ∧
      s' = { s.adoptPath p path blocks store utxo bits with
        files := files, localCheckpoint := cp } ∧
      (s.manualCheckpointPinned = true → cp = s.localCheckpoint) ∧
      (s.manualCheckpointPinned = false →
        ∀ hash, path[checkpointHeight (path.length - 1)]? = some hash →
          cp = some (checkpointHeight (path.length - 1), hash)) := by
  rw [activatePath] at h
  cases hm : path.mapM fun id => s.getBlockByHash id.toNat with
  | none => rw [hm] at h; cases h
  | some blocks =>
      rw [hm] at h
      simp only at h
      cases hw : writePath env.canWrite s.store 0 (path.zip blocks) with
      | mk store ok =>
          rw [hw] at h
          cases ok with
          | false => cases h
          | true =>
              obtain ⟨f₁, cp, h₁, hpin, hfree, -⟩ :=
                refreshLocalCheckpoint_eq env (s.adoptPath p path blocks store utxo bits)
              obtain ⟨f₂, h₂⟩ := saveIndex_eq env
                (refreshLocalCheckpoint env (s.adoptPath p path blocks store utxo bits))
              obtain ⟨f₃, h₃⟩ := persistHeaders_eq env (saveIndex env
                (refreshLocalCheckpoint env (s.adoptPath p path blocks store utxo bits)))
              obtain ⟨f₄, h₄⟩ := persistChainstate_eq env (persistHeaders env (saveIndex env
                (refreshLocalCheckpoint env (s.adoptPath p path blocks store utxo bits))))
              refine ⟨blocks, store, f₄, cp, rfl, hw, ?_, hpin, hfree⟩
              have hs' := congrArg Prod.snd h
              simp only at hs'
              rw [← hs', h₄, h₃, h₂, h₁]

theorem lookup_prune_stored {P : Block → Prop} {st : BlockStore} {n : Nat}
    (h : ∀ k b, st.heightFiles.lookup k = some b → P b) :
    ∀ k b, (st.pruneHeightFilesAfter n).heightFiles.lookup k = some b → P b := by
  intro k b hb
  exact h k b (BlockStore.prune_load_sub st hb)

/-- Activating a path of known headers with the blocks of these headers
yields a coherent state. -/
theorem Coherent.adopt (hs : s.Coherent c p H) {id : Hash512} {path : List Hash512}
    (hpath : s.PathTo id path) {blocks : List Block} (hheaders : s.HeadersOf path blocks)
    {bits : UInt32} (hbits : ∀ {hdr}, s.index.lookup id = some hdr → bits = hdr.bits)
    {store : BlockStore} {utxo : UTXOSet} {w : Writable}
    (hwrite : writePath w s.store 0 (path.zip blocks) = (store, true))
    {files : ChainFiles} {cp : Option (Nat × Hash512)}
    (hcp : ∀ {h hash}, cp = some (h, hash) → path[h]? = some hash) :
    Coherent c p H { s.adoptPath p path blocks store utxo bits with
      files := files, localCheckpoint := cp } := by
  have hnd := Forest.PathTo.nodup hpath
  have hpos := Forest.PathTo.length_pos hpath
  have hlast := Forest.PathTo.getLast? hpath
  have hlen := hheaders.length_eq
  have htip : path.getLast?.getD s.tipHash = id := by rw [hlast]; rfl
  have hkeys : ((workAlong p 0 (path.zip blocks)).map Prod.fst).Nodup := by
    rw [map_fst_workAlong 0 hlen]
    exact hnd
  have hwork : ∀ {i : Nat} {j}, path[i]? = some j →
      (FinMap.insertAll ∅ (workAlong p 0 (path.zip blocks))).lookup j
        = some (s.pathWork p (path.take (i + 1))) := by
    intro i j hj
    have hmem : (j, 0 + s.pathWork p (path.take (i + 1))) ∈ workAlong p 0 (path.zip blocks) :=
      mem_workAlong hheaders hj
    rw [Nat.zero_add] at hmem
    exact FinMap.lookup_insertAll_of_mem hkeys hmem
  have hworkMem : ∀ {j w}, (FinMap.insertAll ∅ (workAlong p 0 (path.zip blocks))).lookup j
      = some w → ∃ i : Nat, path[i]? = some j ∧ w = s.pathWork p (path.take (i + 1)) := by
    intro j w hw
    have hj : j ∈ path := by
      by_contra hnot
      rw [FinMap.lookup_insertAll_of_notMem (by rw [map_fst_workAlong 0 hlen]; exact hnot),
        Finmap.lookup_empty] at hw
      cases hw
    obtain ⟨i, hi⟩ := List.mem_iff_getElem?.mp hj
    rw [hwork hi] at hw
    exact ⟨i, hi, (Option.some.inj hw).symm⟩
  have hstored : ∀ e ∈ path.zip blocks, e.2.header ∈ H := by
    rintro ⟨j, b⟩ he
    exact hs.index.mem (List.forall₂_iff_zip.mp hheaders |>.2 he)
  have hwritten := writePath_stored (P := fun b => b.header ∈ H) hstored hwrite
    hs.stored.1 hs.stored.2
  have htakeLen : ∀ {i : Nat} {j : Hash512}, path[i]? = some j →
      (path.take (i + 1)).length = i + 1 := by
    intro i j hj
    have hlt := (List.getElem?_eq_some_iff.mp hj).1
    rw [List.length_take]
    omega
  have hheight : ∀ {i : Nat} {j}, path[i]? = some j →
      (FinMap.insertAll ∅ path.zipIdx).lookup j = some i :=
    fun hj => (lookup_insertAll_zipIdx hnd).mpr hj
  refine
    { index := hs.index.congr rfl rfl rfl
      stored := ⟨lookup_prune_stored hwritten.1, hwritten.2⟩
      active := ?_
      best := ?_
      tipBits := ?_
      work := ?_
      activeWork := ?_
      ancestorWork := ?_
      activeHeight := hheight
      heightIndex := ?_
      children := hs.children
      checkpoint := hcp }
  · show s.PathTo (path.getLast?.getD s.tipHash) path
    rw [htip]
    exact hpath
  · show path.length - 1 + 1 = path.length
    omega
  · intro hdr hhdr
    have hhdr' : s.index.lookup (path.getLast?.getD s.tipHash) = some hdr := hhdr
    rw [htip] at hhdr'
    exact hbits hhdr'
  · intro j w hw
    obtain ⟨i, hi, rfl⟩ := hworkMem hw
    refine ⟨path.take (i + 1), hpath.take hi, rfl, ?_⟩
    rw [htakeLen hi]
    exact hheight hi
  · intro j hj
    obtain ⟨i, hi⟩ := List.mem_iff_getElem?.mp hj
    exact ⟨_, hwork hi⟩
  · intro j w l k hw hl hk
    obtain ⟨i, hi, -⟩ := hworkMem hw
    have heq : l = path.take (i + 1) := Forest.PathTo.unique hl (hpath.take hi)
    rw [heq] at hk
    obtain ⟨i', hi'⟩ := List.mem_iff_getElem?.mp (List.mem_of_mem_take hk)
    exact ⟨_, hwork hi'⟩
  · intro j h hh
    have hi := (lookup_insertAll_zipIdx hnd).mp hh
    exact ⟨path.take (h + 1), _, hpath.take hi, htakeLen hi, hwork hi⟩

end Blockchain

end Cryptex
