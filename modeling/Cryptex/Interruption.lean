import Cryptex.FileOps
import Cryptex.RegtestRun
import Cryptex.Reopening

/-!
# Starting after an interrupted activation

An activation writes block files, the checkpoint, the index, the headers and
the snapshot one after the other. A start after it was interrupted finds the
old chain as long as no active height file was given to another block, and
the new chain once the index names it and every header of it is stored.
Between the two the files do not fit together.
-/

namespace Cryptex

open Forest FileOp

namespace Blockchain

variable {c : Crypto} {p : ChainParams} {env env' : Env} {skip : Bool} {H : Set BlockHeader}
  {s s' : Blockchain} {path : List Hash512} {blocks : List Block} {n : Nat}

/-! ## The claim of recovery -/

/-- Memory and files agree. -/
structure Steady (c : Crypto) (p : ChainParams) (H : Set BlockHeader) (s : Blockchain) : Prop where
  coherent : s.Coherent c p H
  described : s.Described c
  blocks : ∀ {h : Nat} {id : Hash512}, s.heightMap[h]? = some id →
    s.getBlockByHash id.toNat = s.getBlock h
  ledger : s.Ledger c
  chainstate : s.files.chainstate = some (s.bestHeight, s.tipHash, s.utxo)
  localCheckpoint : s.files.localCheckpoint = s.localCheckpoint
  manualCheckpoint : s.files.manualCheckpoint
    = if s.manualCheckpointPinned then s.localCheckpoint else none
  checkpointed : s.localCheckpoint ≠ none

/-- A path that `accept_block` activates. -/
structure Activates (c : Crypto) (p : ChainParams) (env : Env) (skip : Bool) (s : Blockchain)
    (path : List Hash512) : Prop where
  linked : ∃ id blk, s.PathTo id path ∧ s.blockPool.lookup id = some blk
  valid : s.PathValid c p env skip path
  heavier : s.pathWork p s.heightMap < s.pathWork p path
  agrees : s.candidateMatchesLocalCheckpoint path = true

/-- The operations that an activation has done when it is interrupted after
`n` of them. -/
def doneOps (c : Crypto) (p : ChainParams) (env : Env) (skip : Bool) (s : Blockchain)
    (path : List Hash512) (n : Nat) : List FileOp :=
  (activationOps env s path (s.validatedPrefixLength c p env skip path).utxo).take n

/-- The directory that an interrupted activation leaves. -/
def interrupted (c : Crypto) (p : ChainParams) (env : Env) (skip : Bool) (s : Blockchain)
    (path : List Hash512) (n : Nat) : DataDir :=
  s.dataDir.after (doneOps c p env skip s path n)

/-- One of two chains is active, each height file holds the block of its
active id, and the UTXO set is the replay. -/
structure Recovered (c : Crypto) (old new : List Hash512) (s : Blockchain) : Prop where
  chain : s.heightMap = old ∨ s.heightMap = new
  blocks : ∀ h, h ≤ s.bestHeight → ∃ id b, s.heightMap[h]? = some id ∧
    s.getBlock h = some b ∧ b.header.powHash c = id
  ledger : s.utxo = s.replay c

/-- The blocks found for the ids of a path. -/
def blocksAlong (s : Blockchain) (path : List Hash512) : List Block :=
  path.filterMap fun id => s.getBlockByHash id.toNat

section

variable (c : Crypto) (p : ChainParams) (env env' : Env) (skip : Bool) (s : Blockchain)
  (path : List Hash512) (n : Nat)

/-- Before the index is written: no active height was given to another block,
and a start finds the old chain valid in full or not at all. -/
def OldSurvives : Prop :=
  (∀ h b, writeHeight h b ∈ doneOps c p env skip s path n → h ≤ s.bestHeight →
      path[h]? = s.heightMap[h]?) ∧
    ((startupPrefix c p env' (s.blocksAlong s.heightMap)).length = s.heightMap.length ∨
      (startupPrefix c p env' (s.blocksAlong s.heightMap)).length = 0)

/-- Once the index is written: every header of the path is stored, and a start
finds the new chain valid in full or not at all, or just the old one, with
its UTXO set. -/
def NewSurvives : Prop :=
  ((∃ entries, writeHeaders entries ∈ doneOps c p env skip s path n) ∨
      ∃ entries, s.files.headers = some entries ∧ ∀ id ∈ path, ∃ hdr, (id, hdr) ∈ entries) ∧
    ((startupPrefix c p env' (s.blocksAlong path)).length = path.length ∨
      (startupPrefix c p env' (s.blocksAlong path)).length = 0 ∨
      path.take (startupPrefix c p env' (s.blocksAlong path)).length = s.heightMap ∧
        (startupPrefix c p env' (s.blocksAlong path)).utxo = s.utxo)

end

/-! ## Blocks and paths -/

theorem BlocksOf.blocksAlong_eq {blocks : List Block} (h : s.BlocksOf path blocks) :
    s.blocksAlong path = blocks := by
  have hmap : s.blocksAlong path = (path.map fun id => s.getBlockByHash id.toNat).filterMap id := by
    rw [blocksAlong, List.filterMap_map, Function.id_comp]
  rw [hmap, h, List.filterMap_map, Function.id_comp, List.filterMap_some]

theorem BlocksOf.unique {blocks blocks' : List Block} (h : s.BlocksOf path blocks)
    (h' : s.BlocksOf path blocks') : blocks = blocks' := by
  rw [← h.blocksAlong_eq, h'.blocksAlong_eq]

theorem BlocksOf.take {blocks : List Block} (h : s.BlocksOf path blocks) (k : Nat) :
    s.BlocksOf (path.take k) (blocks.take k) := by
  rw [BlocksOf, List.map_take, List.map_take, h]

/-- The blocks of the active chain are those of the height files. -/
theorem Steady.active (hH : CollisionFree c H) (hs : s.Steady c p H) : ∃ active,
    s.BlocksOf s.heightMap active ∧ s.HeadersOf s.heightMap active ∧
      ∀ k, k < s.heightMap.length → s.store.load k = active[k]? := by
  have hfound : ∀ {h : Nat} {id}, s.heightMap[h]? = some id → ∃ b,
      s.getBlockByHash id.toNat = some b ∧ s.store.load h = some b ∧
        s.index.lookup id = some b.header := by
    intro h id hid
    obtain ⟨b, hb, hpow⟩ := hs.described.complete hid
    obtain ⟨hdr, hhdr⟩ := PathTo.lookup hs.coherent.active (List.mem_of_getElem? hid)
    have heq : hdr = b.header := hH.eq_of_powHash (hs.coherent.index.mem hhdr)
      (hs.coherent.stored.1 _ _ hb) ((hs.coherent.index.id_eq hhdr).trans hpow.symm)
    exact ⟨b, (hs.blocks hid).trans hb, hb, heq ▸ hhdr⟩
  obtain ⟨active, hactive⟩ : ∃ active, s.BlocksOf s.heightMap active :=
    blocksOf_of_forall fun id hid => by
      obtain ⟨h, hh⟩ := List.mem_iff_getElem?.mp hid
      obtain ⟨b, hb, -⟩ := hfound hh
      exact ⟨b, hb⟩
  have hlen := hactive.length_eq
  have hsame : ∀ {k : Nat} {id b}, s.heightMap[k]? = some id → active[k]? = some b →
      s.store.load k = some b ∧ s.index.lookup id = some b.header := by
    intro k id b hid hb
    obtain ⟨b', hb', hload, hhdr⟩ := hfound hid
    rw [hactive.getElem hid hb] at hb'
    cases hb'
    exact ⟨hload, hhdr⟩
  refine ⟨active, hactive, ?_, fun k hk => ?_⟩
  · rw [HeadersOf, List.forall₂_iff_get]
    refine ⟨hlen, fun i hi hi' => ?_⟩
    exact (hsame (List.getElem?_eq_getElem hi) (List.getElem?_eq_getElem hi')).2
  · have hb := List.getElem?_eq_getElem (show k < active.length by omega)
    rw [hb]
    exact (hsame (List.getElem?_eq_getElem hk) hb).1

/-- The UTXO set is the replay of the active blocks. -/
theorem Steady.utxo_eq (hs : s.Steady c p H) {active : List Block}
    (hactive : s.BlocksOf s.heightMap active)
    (hfiles : ∀ k, k < s.heightMap.length → s.store.load k = active[k]?) :
    s.utxo = replayFrom c ∅ 0 active :=
  hs.ledger.trans (replay_eq (hs.coherent.best.trans hactive.length_eq) fun k hk =>
    hfiles k (by rw [hactive.length_eq]; exact hk))

/-- A heavier path is no part of the active chain. -/
theorem Activates.ne_take (hact : s.Activates c p env skip path) (k : Nat) :
    path ≠ s.heightMap.take k := by
  intro heq
  have hlt := hact.heavier
  have hsplit := pathWork_append p s (s.heightMap.take k) (s.heightMap.drop k)
  rw [List.take_append_drop] at hsplit
  rw [heq] at hlt
  omega

/-- The path starts where the active chain starts. -/
theorem Activates.head_eq (hs : s.Steady c p H) (hact : s.Activates c p env skip path) :
    path[0]? = s.heightMap[0]? := by
  obtain ⟨id, blk, hpath, -⟩ := hact.linked
  cases hcp : s.localCheckpoint with
  | none => exact absurd hcp hs.checkpointed
  | some cp =>
      obtain ⟨k, hash⟩ := cp
      have hold := hs.coherent.checkpoint hcp
      have hnew := hact.agrees
      rw [candidateMatchesLocalCheckpoint, hcp] at hnew
      have hnew' : path[k]? = some hash := by simpa using hnew
      have heq := (hpath.take hnew').unique (hs.coherent.active.take hold)
      have h := congrArg (fun l : List Hash512 => l[0]?) heq
      simpa [List.getElem?_take] using h

theorem HeadersOf.powHash (hs : s.IndexOk c H) (h : s.HeadersOf path blocks) {k : Nat}
    {id : Hash512} {b : Block} (hid : path[k]? = some id) (hb : blocks[k]? = some b) :
    b.header.powHash c = id := by
  have hmem := List.mem_of_getElem? (List.getElem?_zip_eq_some (z := (_, _)) |>.mpr ⟨hid, hb⟩)
  exact hs.id_eq ((List.forall₂_iff_zip.mp h).2 hmem)

/-- The directory of a chain with the headers and blocks of a path. -/
theorem Coherent.storedChain (hH : CollisionFree c H) (hs : s.Coherent c p H) {tip : Hash512}
    {ids : List Hash512} (hpath : s.PathTo tip ids) (hheaders : s.HeadersOf ids blocks)
    {dir : DataDir} {entries : List (Hash512 × BlockHeader)} (hindex : dir.files.index = some ids)
    (hfile : dir.files.headers = some entries) (hnd : (entries.map Prod.fst).Nodup)
    (hsub : ∀ e ∈ entries, s.index.lookup e.1 = some e.2)
    (hcover : ∀ id ∈ ids, ∃ hdr, (id, hdr) ∈ entries)
    (hload : ∀ k, k < ids.length → dir.store.load k = blocks[k]?)
    (hheight : ∀ k b, dir.store.load k = some b → b.header ∈ H)
    (hhash : ∀ {id b}, dir.store.loadByHash id = some b →
      b.header ∈ H ∧ b.header.powHash c = id) : StoredChain c H dir ids entries := by
  have hlen := hheaders.length_eq
  refine
    { index := hindex
      headers := hfile
      nodup := hnd
      entry := fun e he => ⟨hs.index.id_eq (hsub e he), hs.index.mem (hsub e he)⟩
      path := ⟨tip, hs.index.storedPath hH hnd hsub hcover hpath⟩
      complete := ?_
      heightFiles := ?_
      hashFiles := hhash }
  · intro i id hi
    have hlt := (List.getElem?_eq_some_iff.mp hi).1
    exact ⟨_, (hload i hlt).trans (List.getElem?_eq_getElem (by omega))⟩
  · intro i b hb
    refine ⟨hheight i b hb, fun id hi => ?_⟩
    have hlt := (List.getElem?_eq_some_iff.mp hi).1
    exact HeadersOf.powHash hs.index hheaders hi ((hload i hlt).symm.trans hb)

theorem startupPrefix_le (c : Crypto) (p : ChainParams) (env : Env) (blocks : List Block) :
    (startupPrefix c p env blocks).length ≤ blocks.length := by
  obtain ⟨accepted, -, -, hlen, htake, -⟩ : ∃ accepted map, Accepts c p env.now false [] ∅ accepted
      map ∧ (startupPrefix c p env blocks).length = 0 + accepted.length ∧ _ :=
    validateBlocks_prefix (blocks.map some) [] ∅ p.powLimitBits
  have h := congrArg List.length htake
  rw [List.length_take, List.length_map, List.length_map] at h
  omega

/-- What a start makes of a stored chain that is valid in full or not at all. -/
theorem StoredChain.recovers {dir : DataDir} {ids : List Hash512}
    {entries : List (Hash512 × BlockHeader)} (hH : CollisionFree c H) (hs : s.IndexOk c H)
    (hw : AllWritable env') (h : StoredChain c H dir ids entries)
    (hheaders : s.HeadersOf ids blocks)
    (hload : ∀ k, k < ids.length → dir.store.load k = blocks[k]?)
    (hv : (startupPrefix c p env' blocks).length = ids.length ∨
      (startupPrefix c p env' blocks).length = 0)
    (hcp : ∀ k hash, loadedCheckpoint dir = some (k, hash) → ids[k]? = some hash ∨
      dir.files.manualCheckpoint = none ∧ ids.length ≤ k)
    (hfits : ∀ tip map, ids.getLast? = some tip →
      dir.files.chainstate = some (ids.length - 1, tip, map) → map = replayFrom c ∅ 0 blocks) :
    ∃ t, openDir c p env' dir = some t ∧ t.heightMap = ids ∧
      (∀ h, h ≤ t.bestHeight → ∃ id b, t.heightMap[h]? = some id ∧ t.getBlock h = some b ∧
        b.header.powHash c = id) ∧ t.utxo = t.replay c := by
  have hlen := hheaders.length_eq
  obtain ⟨t, hopen, hmap, hbest, hstore⟩ := h.opens_intact hH hw hlen.symm hload hv hcp
  have hledger : OpenLedger c p env' dir := h.openLedger hH hlen.symm hload hfits fun hpos hlt => by
    omega
  refine ⟨t, hopen, hmap, fun k hk => ?_, (openDir_stored_ledger hH hw h hledger hopen).1⟩
  have hid := List.getElem?_eq_getElem (show k < ids.length by omega)
  have hb := List.getElem?_eq_getElem (show k < blocks.length by omega)
  exact ⟨_, _, hmap ▸ hid, (hstore k (by omega)).trans hb, HeadersOf.powHash hs hheaders hid hb⟩

/-! ## What an interrupted activation leaves -/

section

variable {utxo : UTXOSet} {done : List FileOp}

theorem after_manualCheckpoint : ∀ (ops : List FileOp) (dir : DataDir),
    (dir.after ops).files.manualCheckpoint = dir.files.manualCheckpoint
  | [], _ => rfl
  | op :: ops, dir => by
      refine (after_manualCheckpoint ops (op.apply dir)).trans ?_
      cases op <;> rfl

theorem Underway.index_file (hu : Underway env s path blocks utxo done) (dir : DataDir) :
    (writeIndex path ∉ done → (dir.after done).files.index = dir.files.index) ∧
      (writeIndex path ∈ done → (dir.after done).files.index = some path) := by
  obtain ⟨hkeep, hset⟩ := after_field (fun dir => dir.files.index) writeIndex some
    (fun dir o h => by
      cases o with
      | writeIndex ids => exact absurd rfl (h ids)
      | _ => rfl) (fun _ _ => rfl) done dir
  refine ⟨fun hnot => hkeep fun ids hmem => ?_, fun hmem => hset path hmem fun ids hids => ?_⟩
  · obtain ⟨rfl, -⟩ := hu.index hmem
    exact hnot hmem
  · rw [(hu.index hids).1]

theorem Underway.headers_file (hu : Underway env s path blocks utxo done) (dir : DataDir) :
    ((∀ entries, writeHeaders entries ∉ done) →
        (dir.after done).files.headers = dir.files.headers) ∧
      ∀ entries, writeHeaders entries ∈ done →
        (dir.after done).files.headers = some (env.visitOrder.visit s.index) := by
  obtain ⟨hkeep, hset⟩ := after_field (fun dir => dir.files.headers) writeHeaders some
    (fun dir o h => by
      cases o with
      | writeHeaders entries => exact absurd rfl (h entries)
      | _ => rfl) (fun _ _ => rfl) done dir
  refine ⟨hkeep, fun entries hmem => ?_⟩
  obtain ⟨rfl, -⟩ := hu.headers hmem
  exact hset _ hmem fun other hother => by rw [(hu.headers hother).1]

/-- The snapshot is the old one, or it is that of the path and the index is
written. -/
theorem Underway.chainstate_file (hu : Underway env s path blocks utxo done) (dir : DataDir) :
    (dir.after done).files.chainstate = dir.files.chainstate ∨
      writeIndex path ∈ done ∧ (dir.after done).files.chainstate
        = some (path.length - 1, path.getLast?.getD s.tipHash, utxo) := by
  obtain ⟨hkeep, hset⟩ := after_field (fun dir => dir.files.chainstate)
    (fun x : Nat × Hash512 × UTXOSet => writeChainstate x.1 x.2.1 x.2.2) some
    (fun dir o h => by
      cases o with
      | writeChainstate height tip map => exact absurd rfl (h (height, tip, map))
      | _ => rfl) (fun _ _ => rfl) done dir
  by_cases hmem : ∃ x : Nat × Hash512 × UTXOSet, writeChainstate x.1 x.2.1 x.2.2 ∈ done
  · obtain ⟨⟨height, tip, map⟩, hx⟩ := hmem
    obtain ⟨rfl, rfl, rfl, hindex⟩ := hu.chainstate hx
    refine Or.inr ⟨hindex, hset _ hx fun y hy => ?_⟩
    obtain ⟨hheight, htip, hmap, -⟩ := hu.chainstate hy
    rw [← hheight, ← htip, ← hmap]
  · exact Or.inl (hkeep fun x hx => hmem ⟨x, hx⟩)

/-- The checkpoint is the old one, or it is on the path and the height files
are written. -/
theorem Underway.checkpoint_file (hu : Underway env s path blocks utxo done) (dir : DataDir) :
    (dir.after done).files.localCheckpoint = dir.files.localCheckpoint ∨
      s.manualCheckpointPinned = false ∧ ∃ k hash, path[k]? = some hash ∧
        (dir.after done).files.localCheckpoint = some (k, hash) ∧
        ∀ j b, blocks[j]? = some b → writeHeight j b ∈ done := by
  obtain ⟨hkeep, hset⟩ := after_field (fun dir => dir.files.localCheckpoint)
    (fun x : Nat × Hash512 => writeLocalCheckpoint x.1 x.2) some
    (fun dir o h => by
      cases o with
      | writeLocalCheckpoint height hash => exact absurd rfl (h (height, hash))
      | _ => rfl) (fun _ _ => rfl) done dir
  by_cases hmem : ∃ x : Nat × Hash512, writeLocalCheckpoint x.1 x.2 ∈ done
  · obtain ⟨⟨height, hash⟩, hx⟩ := hmem
    obtain ⟨⟨hheight, hget, hpin⟩, hall⟩ := hu.checkpoint hx
    refine Or.inr ⟨hpin, height, hash, hget, hset _ hx fun y hy => ?_, hall⟩
    obtain ⟨⟨hheight', hget', -⟩, -⟩ := hu.checkpoint hy
    obtain ⟨k, hash'⟩ := y
    simp only at hheight' hget'
    obtain rfl : k = height := hheight'.trans hheight.symm
    cases hget.symm.trans hget'
    rfl
  · exact Or.inl (hkeep fun x hx => hmem ⟨x, hx⟩)

/-- A height of the path that is written holds its block. -/
theorem Underway.load_written (hu : Underway env s path blocks utxo done)
    (hlen : path.length = blocks.length) (dir : DataDir) {k : Nat} {b : Block}
    (h : writeHeight k b ∈ done) : (dir.after done).store.load k = some b := by
  have hb := hu.height h
  refine after_load_written dir h (fun b' hb' => ?_) fun hremove => ?_
  · exact Option.some.inj ((hu.height hb').symm.trans hb)
  · have := (hu.remove hremove).1
    have := (List.getElem?_eq_some_iff.mp hb).1
    omega

/-- The block files hold blocks with known headers, each by-hash file that of
its id. -/
theorem Underway.stored (hs : s.Coherent c p H) (hd : s.Described c)
    (hheaders : s.HeadersOf path blocks) (hu : Underway env s path blocks utxo done) :
    (∀ k b, (s.dataDir.after done).store.load k = some b → b.header ∈ H) ∧
      ∀ {id b}, (s.dataDir.after done).store.loadByHash id = some b →
        b.header ∈ H ∧ b.header.powHash c = id := by
  constructor
  · intro k b h
    rcases after_load_sub _ h with hmem | hold
    · have hb := hu.height hmem
      have hlt := (List.getElem?_eq_some_iff.mp hb).1
      have hid := List.getElem?_eq_getElem (show k < path.length by
        rw [hheaders.length_eq]; exact hlt)
      have hz := List.mem_of_getElem? (List.getElem?_zip_eq_some (z := (_, _)) |>.mpr ⟨hid, hb⟩)
      exact hs.index.mem ((List.forall₂_iff_zip.mp hheaders).2 hz)
    · exact hs.stored.1 k b hold
  · intro id b h
    rcases after_loadByHash_sub _ h with hmem | hold
    · have hhdr := (List.forall₂_iff_zip.mp hheaders).2 (hu.byHash hmem)
      exact ⟨hs.index.mem hhdr, hs.index.id_eq hhdr⟩
    · exact ⟨hs.stored.2 id b hold, hd.hashFiles hold⟩

end

/-! ## Before the index is written -/

section

variable {utxo : UTXOSet} {done : List FileOp} {active : List Block}

/-- As long as no active height was given to another block the active height
files are as they were. -/
theorem Underway.load_active (hact : s.Activates c p env skip path)
    (hblocks : s.BlocksOf path blocks) (hactive : s.BlocksOf s.heightMap active)
    (hfiles : ∀ k, k < s.heightMap.length → s.store.load k = active[k]?)
    (hbest : s.bestHeight + 1 = s.heightMap.length)
    (hu : Underway env s path blocks utxo done)
    (hkept : ∀ h b, writeHeight h b ∈ done → h ≤ s.bestHeight → path[h]? = s.heightMap[h]?)
    {k : Nat} (hk : k < s.heightMap.length) :
    (s.dataDir.after done).store.load k = active[k]? := by
  have hlen := hblocks.length_eq
  by_cases hwritten : ∃ b, writeHeight k b ∈ done
  · obtain ⟨b, hb⟩ := hwritten
    have hget := hu.height hb
    have hlt := (List.getElem?_eq_some_iff.mp hget).1
    have hid := List.getElem?_eq_getElem (show k < path.length by omega)
    have hid' := (hkept k b hb (by omega)).symm.trans hid
    have hb' := List.getElem?_eq_getElem (show k < active.length by
      rw [← hactive.length_eq]; exact hk)
    rw [hu.load_written hlen _ hb, hb', ← hblocks.getElem hid hget, hactive.getElem hid' hb']
  · have hnot : ∀ b, writeHeight k b ∉ done := fun b hb => hwritten ⟨b, hb⟩
    refine (after_load_same _ hnot fun hremove => ?_).trans (hfiles k hk)
    -- a removal comes after all height files, and the path is then a part of the chain
    obtain ⟨hle, hall⟩ := hu.remove hremove
    refine hact.ne_take path.length (List.ext_getElem? fun j => ?_)
    rw [List.getElem?_take]
    split
    · next hj =>
        have hb := List.getElem?_eq_getElem (show j < blocks.length by omega)
        exact hkept j _ (hall j _ hb) (by omega)
    · next hj => exact List.getElem?_eq_none (by omega)

/-- The files of the old chain, with the height files as they were. -/
theorem Underway.storedOld (hH : CollisionFree c H) (hs : s.Steady c p H)
    (hheaders : s.HeadersOf path blocks) (hactive : s.HeadersOf s.heightMap active)
    (hu : Underway env s path blocks utxo done) (hbefore : writeIndex path ∉ done)
    (hload : ∀ k, k < s.heightMap.length → (s.dataDir.after done).store.load k = active[k]?) :
    ∃ entries, StoredChain c H (s.dataDir.after done) s.heightMap entries := by
  obtain ⟨entries, hfile, hnd, hsub, hcover⟩ := hs.described.headers
  obtain ⟨hheight, hhash⟩ := hu.stored hs.coherent hs.described hheaders
  have hnone : ∀ entries, writeHeaders entries ∉ done := fun entries h =>
    hbefore (hu.headers h).2
  exact ⟨entries, hs.coherent.storedChain hH hs.coherent.active hactive
    (((hu.index_file _).1 hbefore).trans hs.described.index)
    (((hu.headers_file _).1 hnone).trans hfile) hnd hsub hcover hload hheight hhash⟩

/-- A start finds the old chain when its height files are as they were and
its blocks are valid in full or not at all. -/
theorem Underway.recovers_old (hH : CollisionFree c H) (hs : s.Steady c p H)
    (hact : s.Activates c p env skip path) (hw : AllWritable env')
    (hblocks : s.BlocksOf path blocks) (hheaders : s.HeadersOf path blocks)
    (hu : Underway env s path blocks utxo done) (hbefore : writeIndex path ∉ done)
    (hkept : ∀ h b, writeHeight h b ∈ done → h ≤ s.bestHeight → path[h]? = s.heightMap[h]?)
    (hv : (startupPrefix c p env' (s.blocksAlong s.heightMap)).length = s.heightMap.length ∨
      (startupPrefix c p env' (s.blocksAlong s.heightMap)).length = 0) :
    ∃ t, openDir c p env' (s.dataDir.after done) = some t ∧ Recovered c s.heightMap path t := by
  obtain ⟨active, hactive, hheadersA, hfiles⟩ := hs.active hH
  have hbest := hs.coherent.best
  rw [hactive.blocksAlong_eq] at hv
  have hload : ∀ k, k < s.heightMap.length →
      (s.dataDir.after done).store.load k = active[k]? := fun k hk =>
    hu.load_active hact hblocks hactive hfiles hbest hkept hk
  obtain ⟨entries, hstored⟩ := hu.storedOld hH hs hheaders hheadersA hbefore hload
  have hmanual := after_manualCheckpoint done s.dataDir
  have hcp : ∀ k hash, loadedCheckpoint (s.dataDir.after done) = some (k, hash) →
      s.heightMap[k]? = some hash ∨
        (s.dataDir.after done).files.manualCheckpoint = none ∧ s.heightMap.length ≤ k := by
    intro k hash hk
    rw [loadedCheckpoint, hmanual, show s.dataDir.files.manualCheckpoint = _ from
      hs.manualCheckpoint] at hk
    rcases hu.checkpoint_file s.dataDir with hold | ⟨hpin, j, hash', hget, hnew, hall⟩
    · rw [hold, show s.dataDir.files.localCheckpoint = _ from hs.localCheckpoint] at hk
      refine Or.inl (hs.coherent.checkpoint ?_)
      split at hk
      · simpa using hk
      · exact hk
    · rw [hpin, hnew] at hk
      cases hk
      by_cases hlt : k < s.heightMap.length
      · have hj := (List.getElem?_eq_some_iff.mp hget).1
        have hb := List.getElem?_eq_getElem (show k < blocks.length by
          rw [← hblocks.length_eq]; exact hj)
        exact Or.inl ((hkept k _ (hall k _ hb) (by omega)).symm.trans hget)
      · refine Or.inr ⟨?_, by omega⟩
        rw [hmanual]
        exact hs.manualCheckpoint.trans (by rw [hpin]; rfl)
  have hfits : ∀ tip map, s.heightMap.getLast? = some tip →
      (s.dataDir.after done).files.chainstate = some (s.heightMap.length - 1, tip, map) →
      map = replayFrom c ∅ 0 active := by
    intro tip map _ hchain
    rcases hu.chainstate_file s.dataDir with hold | ⟨hindex, -⟩
    · rw [hold, show s.dataDir.files.chainstate = _ from hs.chainstate] at hchain
      obtain rfl : s.utxo = map := congrArg (fun x => x.2.2) (Option.some.inj hchain)
      exact hs.utxo_eq hactive hfiles
    · exact absurd hindex hbefore
  obtain ⟨t, hopen, hmap, hget, hledger⟩ := hstored.recovers hH hs.coherent.index hw hheadersA hload
    hv hcp hfits
  exact ⟨t, hopen, Or.inl hmap, hget, hledger⟩

/-- A start that finds one of the two chains before the index is written finds
the old one, with the active height files as they were. -/
theorem Underway.recovered_old (hH : CollisionFree c H) (hs : s.Steady c p H)
    (hact : s.Activates c p env skip path) (hw : AllWritable env')
    (hblocks : s.BlocksOf path blocks) (hheaders : s.HeadersOf path blocks)
    (hu : Underway env s path blocks utxo done) (hbefore : writeIndex path ∉ done) {t : Blockchain}
    (hopen : openDir c p env' (s.dataDir.after done) = some t)
    (ht : Recovered c s.heightMap path t) :
    (∀ h b, writeHeight h b ∈ done → h ≤ s.bestHeight → path[h]? = s.heightMap[h]?) ∧
      ((startupPrefix c p env' (s.blocksAlong s.heightMap)).length = s.heightMap.length ∨
        (startupPrefix c p env' (s.blocksAlong s.heightMap)).length = 0) := by
  obtain ⟨active, hactive, hheadersA, hfiles⟩ := hs.active hH
  have hbest := hs.coherent.best
  have hindex := ((hu.index_file s.dataDir).1 hbefore).trans hs.described.index
  obtain ⟨⟨n, hcut⟩, hsame⟩ := openDir_kept hw hindex hs.coherent.heightMap_ne_nil hopen
  have hmap : t.heightMap = s.heightMap := by
    refine ht.chain.resolve_right fun hnew => hact.ne_take n ?_
    exact hnew.symm.trans hcut
  obtain ⟨hbestT, hloadT⟩ := hsame hmap
  have hkept : ∀ h b, writeHeight h b ∈ done → h ≤ s.bestHeight →
      path[h]? = s.heightMap[h]? := by
    intro h b hmem hle
    have hb := hu.height hmem
    have hload := hloadT (by omega) (hu.load_written hblocks.length_eq s.dataDir hmem)
    obtain ⟨id, b', hid, hget, hpow⟩ := ht.blocks h (by omega)
    obtain rfl : b = b' := Option.some.inj (hload.symm.trans hget)
    have hlt := (List.getElem?_eq_some_iff.mp hb).1
    have hid' := List.getElem?_eq_getElem (show h < path.length by
      rw [hblocks.length_eq]; exact hlt)
    rw [hid', ← hmap, hid, ← hpow, HeadersOf.powHash hs.coherent.index hheaders hid' hb]
  refine ⟨hkept, ?_⟩
  rw [hactive.blocksAlong_eq]
  have hload : ∀ k, k < s.heightMap.length →
      (s.dataDir.after done).store.load k = active[k]? := fun k hk =>
    hu.load_active hact hblocks hactive hfiles hbest hkept hk
  obtain ⟨entries, hstored⟩ := hu.storedOld hH hs hheaders hheadersA hbefore hload
  by_contra hv
  have hle := startupPrefix_le c p env' active
  rw [← hactive.length_eq] at hle
  obtain ⟨hcutT, -⟩ := hstored.opens_cut (p := p) hH hw hactive.length_eq.symm hload
    (by omega) (by omega)
  have h := (hcutT t hopen).1.symm.trans hmap
  have := congrArg List.length h
  rw [List.length_take] at this
  omega

end

/-! ## Once the index is written -/

section

variable {utxo : UTXOSet} {done : List FileOp}

/-- All height files of the path are written before the index is. -/
theorem Underway.load_path (hblocks : s.BlocksOf path blocks)
    (hu : Underway env s path blocks utxo done) (hindex : writeIndex path ∈ done) {k : Nat}
    (hk : k < path.length) : (s.dataDir.after done).store.load k = blocks[k]? := by
  have hlen := hblocks.length_eq
  have hb := List.getElem?_eq_getElem (show k < blocks.length by omega)
  obtain ⟨-, hsub⟩ := hu.index hindex
  rw [hb]
  refine hu.load_written hlen _ (hsub ?_)
  rw [stagingOps]
  exact List.mem_append_left _ (List.mem_append_left _ ((mem_blockOps_height hlen).mpr hb))

/-- The files of the new chain, when every header of it is stored. -/
theorem Underway.storedNew (hH : CollisionFree c H) (hs : s.Steady c p H) {tip : Hash512}
    (hpath : s.PathTo tip path) (hblocks : s.BlocksOf path blocks)
    (hheaders : s.HeadersOf path blocks) (hu : Underway env s path blocks utxo done)
    (hindex : writeIndex path ∈ done)
    (hknown : (∃ entries, writeHeaders entries ∈ done) ∨
      ∃ entries, s.files.headers = some entries ∧ ∀ id ∈ path, ∃ hdr, (id, hdr) ∈ entries) :
    ∃ entries, StoredChain c H (s.dataDir.after done) path entries := by
  obtain ⟨hheight, hhash⟩ := hu.stored hs.coherent hs.described hheaders
  have hload : ∀ k, k < path.length → (s.dataDir.after done).store.load k = blocks[k]? :=
    fun k hk => hu.load_path hblocks hindex hk
  obtain ⟨entries, hfile, hnd, hsub, hcover⟩ : ∃ entries,
      (s.dataDir.after done).files.headers = some entries ∧ (entries.map Prod.fst).Nodup ∧
        (∀ e ∈ entries, s.index.lookup e.1 = some e.2) ∧
        ∀ id ∈ path, ∃ hdr, (id, hdr) ∈ entries := by
    by_cases hwritten : ∃ entries, writeHeaders entries ∈ done
    · obtain ⟨entries, hmem⟩ := hwritten
      refine ⟨_, (hu.headers_file _).2 entries hmem, env.visitOrder.nodup_keys _, fun e he =>
        (env.visitOrder.mem_visit _ _ _).mp he, fun id hid => ?_⟩
      obtain ⟨hdr, hhdr⟩ := PathTo.lookup hpath hid
      exact ⟨hdr, (env.visitOrder.mem_visit _ _ _).mpr hhdr⟩
    · obtain ⟨entries, hold, hcover⟩ := hknown.resolve_left hwritten
      obtain ⟨entries', hold', hnd, hsub, -⟩ := hs.described.headers
      obtain rfl : entries = entries' := Option.some.inj (hold.symm.trans hold')
      exact ⟨entries, ((hu.headers_file _).1 fun x hx => hwritten ⟨x, hx⟩).trans hold, hnd, hsub,
        hcover⟩
  exact ⟨entries, hs.coherent.storedChain hH hpath hheaders ((hu.index_file _).2 hindex) hfile hnd
    hsub hcover hload hheight hhash⟩

/-- Once the index is written, a header of the path that is not stored ends
the constructor. -/
theorem Underway.headers_known (hH : CollisionFree c H) (hplace : BlockHeader.hash c {} ≠ 0)
    (hs : s.Steady c p H) (hact : s.Activates c p env skip path)
    (hu : Underway env s path blocks utxo done) (hindex : writeIndex path ∈ done) {t : Blockchain}
    (hopen : openDir c p env' (s.dataDir.after done) = some t) :
    (∃ entries, writeHeaders entries ∈ done) ∨
      ∃ entries, s.files.headers = some entries ∧ ∀ id ∈ path, ∃ hdr, (id, hdr) ∈ entries := by
  by_contra hnot
  rw [not_or] at hnot
  obtain ⟨hunwritten, hmissing⟩ := hnot
  obtain ⟨entries, hfile, -, hsub, hcover⟩ := hs.described.headers
  obtain ⟨id, hid, habsent⟩ : ∃ id ∈ path, ∀ hdr, (id, hdr) ∉ entries := by
    by_contra hall
    refine hmissing ⟨entries, hfile, fun id hid => ?_⟩
    by_contra hno
    exact hall ⟨id, hid, fun hdr hmem => hno ⟨hdr, hmem⟩⟩
  obtain ⟨i, hi⟩ := List.mem_iff_getElem?.mp hid
  have hpos : 0 < i := by
    rcases Nat.eq_zero_or_pos i with rfl | hpos
    · -- genesis is active and has a header
      rw [hact.head_eq hs] at hi
      obtain ⟨hdr, hmem⟩ := hcover id (List.mem_of_getElem? hi)
      exact absurd hmem (habsent hdr)
    · exact hpos
  have hentry : ∀ e ∈ entries, e.2.hash c ≠ 0 := fun e he =>
    hH.hash_ne_zero _ (hs.coherent.index.mem (hsub e he))
  have hnotin : id ∉ entries.map Prod.fst := by
    intro hmem
    obtain ⟨⟨j, hdr⟩, he, rfl⟩ := List.mem_map.mp hmem
    exact habsent hdr he
  have hfile' := ((hu.headers_file s.dataDir).1 fun x hx => hunwritten ⟨x, hx⟩).trans hfile
  have hnone : loadChain c p env' (s.dataDir.after done) = none :=
    loadChain_placeholder ((hu.index_file s.dataDir).2 hindex) hfile' hentry hplace hi hpos hnotin
  rw [openDir_eq, hnone, Option.bind_none] at hopen
  cases hopen

/-- The checkpoint that is loaded once the index is written is on the path. -/
theorem Underway.loadedCheckpoint_mem (hs : s.Steady c p H)
    (hact : s.Activates c p env skip path) (hu : Underway env s path blocks utxo done) {k : Nat}
    {hash : Hash512} (hk : loadedCheckpoint (s.dataDir.after done) = some (k, hash)) :
    path[k]? = some hash := by
  have hagrees : s.localCheckpoint = some (k, hash) → path[k]? = some hash := by
    intro hcp
    have h := hact.agrees
    rw [candidateMatchesLocalCheckpoint, hcp] at h
    simpa using h
  rw [loadedCheckpoint, after_manualCheckpoint, show s.dataDir.files.manualCheckpoint = _ from
    hs.manualCheckpoint] at hk
  rcases hu.checkpoint_file s.dataDir with hold | ⟨hpin, j, hash', hget, hnew, -⟩
  · rw [hold, show s.dataDir.files.localCheckpoint = _ from hs.localCheckpoint] at hk
    refine hagrees ?_
    split at hk
    · simpa using hk
    · exact hk
  · rw [hpin, hnew] at hk
    cases hk
    exact hget

/-- Once the index is written, a start finds the new chain when its headers
are stored and its blocks are valid in full or not at all. -/
theorem Underway.recovers_new (hH : CollisionFree c H) (hs : s.Steady c p H)
    (hact : s.Activates c p env skip path) (hw : AllWritable env')
    (hblocks : s.BlocksOf path blocks) (hheaders : s.HeadersOf path blocks)
    (hutxo : utxo = replayFrom c ∅ 0 blocks)
    (hu : Underway env s path blocks utxo done) (hindex : writeIndex path ∈ done)
    {entries : List (Hash512 × BlockHeader)}
    (hstored : StoredChain c H (s.dataDir.after done) path entries)
    (hv : (startupPrefix c p env' blocks).length = path.length ∨
      (startupPrefix c p env' blocks).length = 0) :
    ∃ t, openDir c p env' (s.dataDir.after done) = some t ∧ Recovered c s.heightMap path t := by
  obtain ⟨id, blk, hpath, -⟩ := hact.linked
  have hload : ∀ k, k < path.length → (s.dataDir.after done).store.load k = blocks[k]? :=
    fun k hk => hu.load_path hblocks hindex hk
  have hfits : ∀ tip map, path.getLast? = some tip →
      (s.dataDir.after done).files.chainstate = some (path.length - 1, tip, map) →
      map = replayFrom c ∅ 0 blocks := by
    intro tip map htip hchain
    rcases hu.chainstate_file s.dataDir with hold | ⟨-, hnew⟩
    · -- the old snapshot is not one of the new tip
      rw [hold, show s.dataDir.files.chainstate = _ from hs.chainstate] at hchain
      obtain rfl : s.tipHash = tip := congrArg (fun x => x.2.1) (Option.some.inj hchain)
      obtain rfl : s.tipHash = id := Option.some.inj (htip.symm.trans hpath.getLast?)
      refine absurd (hpath.unique hs.coherent.active) fun heq => ?_
      exact hact.ne_take s.heightMap.length (by rw [List.take_length]; exact heq)
    · rw [hnew] at hchain
      obtain rfl : utxo = map := congrArg (fun x => x.2.2) (Option.some.inj hchain)
      exact hutxo
  obtain ⟨t, hopen, hmap, hget, hledger⟩ := hstored.recovers hH hs.coherent.index hw hheaders hload
    hv (fun k hash hk => Or.inl (hu.loadedCheckpoint_mem hs hact hk)) hfits
  exact ⟨t, hopen, Or.inr hmap, hget, hledger⟩

/-- A new chain that is cut to the old one recovers the old one, if the
validation leaves its UTXO set. -/
theorem Underway.recovers_cut (hH : CollisionFree c H) (hs : s.Steady c p H)
    (hw : AllWritable env')
    (hblocks : s.BlocksOf path blocks) (hheaders : s.HeadersOf path blocks)
    (hu : Underway env s path blocks utxo done) (hindex : writeIndex path ∈ done)
    {entries : List (Hash512 × BlockHeader)}
    (hstored : StoredChain c H (s.dataDir.after done) path entries)
    (hpos : 0 < (startupPrefix c p env' blocks).length)
    (hlt : (startupPrefix c p env' blocks).length < path.length) :
    (∃ t, openDir c p env' (s.dataDir.after done) = some t ∧ Recovered c s.heightMap path t) ↔
      path.take (startupPrefix c p env' blocks).length = s.heightMap ∧
        (startupPrefix c p env' blocks).utxo = s.utxo := by
  obtain ⟨active, hactive, -, hfiles⟩ := hs.active hH
  have hlen := hblocks.length_eq
  have hload : ∀ k, k < path.length → (s.dataDir.after done).store.load k = blocks[k]? :=
    fun k hk => hu.load_path hblocks hindex hk
  obtain ⟨hcut, hopens⟩ := hstored.opens_cut (p := p) hH hw hlen.symm hload hpos hlt
  -- the replay of the old chain is that of the blocks that are left
  have hreplay : path.take (startupPrefix c p env' blocks).length = s.heightMap →
      ∀ {t}, openDir c p env' (s.dataDir.after done) = some t → t.replay c = s.utxo := by
    intro hold t hopen
    obtain ⟨-, hbest, hstore, -⟩ := hcut t hopen
    have htake : blocks.take (startupPrefix c p env' blocks).length = active :=
      (hold ▸ hblocks.take _).unique hactive
    have hlen' := congrArg List.length htake
    rw [List.length_take] at hlen'
    rw [hs.utxo_eq hactive hfiles]
    refine replay_eq (by omega) fun k hk => ?_
    rw [hstore k (by omega), ← htake, List.getElem?_take, if_pos (by omega)]
  constructor
  · rintro ⟨t, hopen, ht⟩
    obtain ⟨hmap, hbest, hstore, hutxo⟩ := hcut t hopen
    have hold : t.heightMap = s.heightMap := by
      refine ht.chain.resolve_right fun hnew => ?_
      have h := congrArg List.length (hmap.symm.trans hnew)
      rw [List.length_take] at h
      omega
    have hcutOld := hmap.symm.trans hold
    exact ⟨hcutOld, hutxo.symm.trans (ht.ledger.trans (hreplay hcutOld hopen))⟩
  · rintro ⟨hold, hkept⟩
    obtain ⟨t, hopen⟩ := hopens fun k hash hmanual => by
      rw [after_manualCheckpoint, show s.dataDir.files.manualCheckpoint = _ from
        hs.manualCheckpoint] at hmanual
      rw [hold]
      split at hmanual
      · exact hs.coherent.checkpoint hmanual
      · cases hmanual
    obtain ⟨hmap, hbest, hstore, hutxo⟩ := hcut t hopen
    refine ⟨t, hopen, Or.inl (hmap.trans hold), fun h hle => ?_, ?_⟩
    · have hid := List.getElem?_eq_getElem (show h < path.length by omega)
      have hb := List.getElem?_eq_getElem (show h < blocks.length by omega)
      refine ⟨path[h], blocks[h], ?_, (hstore h (by omega)).trans hb,
        HeadersOf.powHash hs.coherent.index hheaders hid hb⟩
      rw [hmap, List.getElem?_take, if_pos (by omega), hid]
    · rw [hreplay hold hopen, hutxo, hkept]

end

/-! ## Every interruption point -/

/-- A start after an interrupted activation finds the old or the new chain
exactly when the old one survives, before the index is written, or the new
one, afterwards. -/
theorem interrupted_recovers_iff (hH : CollisionFree c H) (hplace : BlockHeader.hash c {} ≠ 0)
    (hs : s.Steady c p H) (hact : s.Activates c p env skip path) (hw : AllWritable env')
    (n : Nat) :
    (∃ t, openDir c p env' (s.interrupted c p env skip path n) = some t ∧
        Recovered c s.heightMap path t) ↔
      (writeIndex path ∉ doneOps c p env skip s path n → OldSurvives c p env env' skip s path n) ∧
        (writeIndex path ∈ doneOps c p env skip s path n →
          NewSurvives c p env env' skip s path n) := by
  obtain ⟨id, blk, hpath, hpool⟩ := hact.linked
  obtain ⟨blocks, hblocks, hheaders, hacc, -⟩ := hs.coherent.blocks_of_valid hH hpath hpool hact.valid
  have hu := underway_take env hblocks hpath.ne_nil
    (s.validatedPrefixLength c p env skip path).utxo n
  have hutxo := hacc.replay
  have hle := startupPrefix_le c p env' blocks
  rw [← hblocks.length_eq] at hle
  rw [OldSurvives, NewSurvives, interrupted, hblocks.blocksAlong_eq]
  rw [← doneOps] at hu
  generalize doneOps c p env skip s path n = done at hu
  by_cases hindex : writeIndex path ∈ done
  · refine Iff.trans ?_ (and_iff_right fun hnot => absurd hindex hnot).symm
    refine Iff.trans ?_ (forall_prop_of_true hindex).symm
    constructor
    · rintro ⟨t, hopen, ht⟩
      have hknown := hu.headers_known hH hplace hs hact hindex hopen
      obtain ⟨entries, hstored⟩ := hu.storedNew hH hs hpath hblocks hheaders hindex hknown
      refine ⟨hknown, ?_⟩
      by_contra hv
      rw [not_or, not_or] at hv
      refine hv.2.2 ((hu.recovers_cut hH hs hw hblocks hheaders hindex hstored ?_ ?_).mp
        ⟨t, hopen, ht⟩)
      · omega
      · omega
    · rintro ⟨hknown, hv⟩
      obtain ⟨entries, hstored⟩ := hu.storedNew hH hs hpath hblocks hheaders hindex hknown
      by_cases hwhole : (startupPrefix c p env' blocks).length = path.length ∨
          (startupPrefix c p env' blocks).length = 0
      · exact hu.recovers_new hH hs hact hw hblocks hheaders hutxo.symm hindex hstored hwhole
      · rw [← or_assoc] at hv
        exact (hu.recovers_cut hH hs hw hblocks hheaders hindex hstored (by omega) (by omega)).mpr
          (hv.resolve_left hwhole)
  · refine Iff.trans ?_ (and_iff_left fun hmem => absurd hmem hindex).symm
    refine Iff.trans ?_ (forall_prop_of_true hindex).symm
    constructor
    · rintro ⟨t, hopen, ht⟩
      exact hu.recovered_old hH hs hact hw hblocks hheaders hindex hopen ht
    · rintro ⟨hkept, hv⟩
      exact hu.recovers_old hH hs hact hw hblocks hheaders hindex hkept hv

/-! ## Samples -/

open Regtest

end Blockchain

end Cryptex
