import Cryptex.BlockFiles

/-!
# The file operations of an activation

`activate_path` as the list of what it does to the data directory, in the
order of the source. Each operation replaces or removes one file. A prefix
of the list is what a crash leaves done.
-/

namespace Cryptex

/-- One operation on a file of the data directory. -/
inductive FileOp where
  | writeHeight (height : Nat) (blk : Block)
  | writeByHash (id : Hash512) (blk : Block)
  | removeHeight (height : Nat)
  | writeLocalCheckpoint (height : Nat) (hash : Hash512)
  | writeIndex (ids : List Hash512)
  | writeHeaders (entries : List (Hash512 × BlockHeader))
  | writeChainstate (height : Nat) (tip : Hash512) (map : UTXOSet)

namespace FileOp

def apply (dir : DataDir) : FileOp → DataDir
  | writeHeight height blk =>
      { dir with store.heightFiles := dir.store.heightFiles.insert height blk }
  | writeByHash id blk => { dir with store.hashFiles := dir.store.hashFiles.insert id blk }
  | removeHeight height => { dir with store.heightFiles := dir.store.heightFiles.erase height }
  | writeLocalCheckpoint height hash => { dir with files.localCheckpoint := some (height, hash) }
  | writeIndex ids => { dir with files.index := some ids }
  | writeHeaders entries => { dir with files.headers := some entries }
  | writeChainstate height tip map => { dir with files.chainstate := some (height, tip, map) }

end FileOp

/-- A directory after some operations. -/
def DataDir.after (dir : DataDir) (ops : List FileOp) : DataDir := ops.foldl FileOp.apply dir

namespace Blockchain

open FileOp

/-! ## The operations -/

/-- The block files of a path, the first block at height `i`. -/
def blockOps : Nat → List (Hash512 × Block) → List FileOp
  | _, [] => []
  | i, (id, blk) :: rest => writeHeight i blk :: writeByHash id blk :: blockOps (i + 1) rest

/-- The removals of `prune_height_files_after`, from the cursor on. -/
def pruneOps : Nat → Nat → FinMap Nat Block → List FileOp
  | 0, _, _ => []
  | fuel + 1, cursor, files =>
      if (files.lookup cursor).isSome then
        removeHeight cursor :: pruneOps fuel (cursor + 1) (files.erase cursor)
      else []

/-- The checkpoint file, when `refresh_local_checkpoint` moves the checkpoint. -/
def checkpointOps (s : Blockchain) (path : List Hash512) : List FileOp :=
  if s.manualCheckpointPinned then []
  else
    match path[checkpointHeight (path.length - 1)]? with
    | none => []
    | some hash =>
        if s.localCheckpoint = some (checkpointHeight (path.length - 1), hash) then []
        else [writeLocalCheckpoint (checkpointHeight (path.length - 1)) hash]

/-- What comes before `index.dat` is written. -/
def stagingOps (s : Blockchain) (path : List Hash512) (blocks : List Block) : List FileOp :=
  let written := (writePath (fun _ => true) s.store 0 (path.zip blocks)).1
  blockOps 0 (path.zip blocks) ++
    pruneOps written.heightFiles.keys.card (path.length - 1 + 1) written.heightFiles ++
    checkpointOps s path

/-- The file operations of `activate_path`. -/
def activationOps (env : Env) (s : Blockchain) (path : List Hash512) (newUtxo : UTXOSet) :
    List FileOp :=
  match path.mapM fun id => s.getBlockByHash id.toNat with
  | none => []
  | some blocks =>
      stagingOps s path blocks ++
        [writeIndex path, writeHeaders (env.visitOrder.visit s.index),
          writeChainstate (path.length - 1) (path.getLast?.getD s.tipHash) newUtxo]

/-! ## The whole list is what `activate_path` does -/

theorem after_append (dir : DataDir) (xs ys : List FileOp) :
    dir.after (xs ++ ys) = (dir.after xs).after ys := List.foldl_append

theorem writePath_after {w : Writable} (hw : ∀ f, w f = true) :
    ∀ (entries : List (Hash512 × Block)) (dir : DataDir) (i : Nat),
      writePath w dir.store i entries = ((dir.after (blockOps i entries)).store, true) ∧
        (dir.after (blockOps i entries)).files = dir.files
  | [], _, _ => ⟨rfl, rfl⟩
  | (id, blk) :: rest, dir, i => by
      simp only [writePath, BlockStore.store, BlockStore.storeByHash, hw, if_true]
      exact writePath_after hw rest (((writeByHash id blk).apply ((writeHeight i blk).apply dir)))
        (i + 1)

theorem pruneFrom_after : ∀ (fuel cursor : Nat) (dir : DataDir),
    dir.after (pruneOps fuel cursor dir.store.heightFiles)
      = { dir with store.heightFiles := BlockStore.pruneFrom fuel cursor dir.store.heightFiles }
  | 0, _, _ => rfl
  | fuel + 1, cursor, dir => by
      rw [pruneOps, BlockStore.pruneFrom]
      split
      · exact pruneFrom_after fuel (cursor + 1) ((removeHeight cursor).apply dir)
      · rfl

variable {p : ChainParams} {env : Env} {s s' : Blockchain} {path : List Hash512}
  {blocks : List Block} {utxo : UTXOSet} {bits : UInt32}

theorem refreshLocalCheckpoint_after (hw : AllWritable env) (hbest : s'.bestHeight = path.length - 1)
    (hmap : s'.heightMap = path) (hpin : s'.manualCheckpointPinned = s.manualCheckpointPinned)
    (hcp : s'.localCheckpoint = s.localCheckpoint) :
    (refreshLocalCheckpoint env s').dataDir = s'.dataDir.after (checkpointOps s path) := by
  unfold refreshLocalCheckpoint checkpointOps
  rw [hpin, hbest, hmap, hcp]
  by_cases hpinned : s.manualCheckpointPinned = true
  · rw [if_pos hpinned, if_pos hpinned]
    rfl
  · rw [if_neg hpinned, if_neg hpinned]
    simp only
    cases path[checkpointHeight (path.length - 1)]? with
    | none => rfl
    | some hash =>
        simp only
        split
        · rfl
        · simp only [persistLocalCheckpoint, Option.isSome_some, Bool.true_and, hw _, if_true]
          rfl

/-- With every write succeeding an activation leaves the directory that its
operations lead to. -/
theorem activatePath_after (hw : AllWritable env)
    (h : activatePath p env s path utxo bits = (true, s')) :
    s'.dataDir = s.dataDir.after (activationOps env s path utxo) := by
  rw [activatePath] at h
  cases hm : path.mapM fun id => s.getBlockByHash id.toNat with
  | none => rw [hm] at h; cases h
  | some blocks =>
      rw [hm] at h
      simp only at h
      obtain ⟨hwrite, hfiles⟩ := writePath_after hw (path.zip blocks) s.dataDir 0
      obtain ⟨hwrite', -⟩ := writePath_after (fun _ => rfl) (path.zip blocks) s.dataDir 0
      rw [show s.store = s.dataDir.store from rfl, hwrite] at h
      have hs' := (congrArg Prod.snd h).symm
      simp only [persistChainstate, persistHeaders, saveIndex, hw _, if_true] at hs'
      rw [activationOps, hm]
      simp only [stagingOps, after_append]
      rw [show s.store = s.dataDir.store from rfl, hwrite']
      simp only
      rw [pruneFrom_after]
      have hrefresh : (refreshLocalCheckpoint env (s.adoptPath p path blocks
          (s.dataDir.after (blockOps 0 (path.zip blocks))).store utxo bits)).dataDir
            = DataDir.after _ (checkpointOps s path) :=
        refreshLocalCheckpoint_after hw rfl rfl rfl rfl
      obtain ⟨files, cp, heq, -⟩ := refreshLocalCheckpoint_eq env
        (s.adoptPath p path blocks (s.dataDir.after (blockOps 0 (path.zip blocks))).store utxo bits)
      have hstart : (s.adoptPath p path blocks
          (s.dataDir.after (blockOps 0 (path.zip blocks))).store utxo bits).dataDir
            = { s.dataDir.after (blockOps 0 (path.zip blocks)) with
                store.heightFiles := BlockStore.pruneFrom
                  (s.dataDir.after (blockOps 0 (path.zip blocks))).store.heightFiles.keys.card
                  (path.length - 1 + 1)
                  (s.dataDir.after (blockOps 0 (path.zip blocks))).store.heightFiles } := by
        show DataDir.mk _ s.files = _
        rw [show s.files = (s.dataDir.after (blockOps 0 (path.zip blocks))).files from hfiles.symm]
        rfl
      rw [hstart] at hrefresh
      rw [← hrefresh, hs', heq]
      rfl

/-! ## What operations leave in a file -/

/-- A height file that no operation touches. -/
theorem after_load_same {k : Nat} : ∀ {ops : List FileOp} (dir : DataDir),
    (∀ b, writeHeight k b ∉ ops) → removeHeight k ∉ ops →
    (dir.after ops).store.load k = dir.store.load k
  | [], _, _, _ => rfl
  | op :: ops, dir, hwrite, hremove => by
      refine (after_load_same (op.apply dir) (fun b hb => hwrite b (List.mem_cons_of_mem _ hb))
        fun hb => hremove (List.mem_cons_of_mem _ hb)).trans ?_
      cases op with
      | writeHeight h b =>
          refine Finmap.lookup_insert_of_ne _ ?_
          rintro rfl
          exact hwrite b List.mem_cons_self
      | removeHeight h =>
          refine Finmap.lookup_erase_ne ?_
          rintro rfl
          exact hremove List.mem_cons_self
      | _ => rfl

/-- A height file that is written with one block only. -/
theorem after_load_written {k : Nat} {b : Block} : ∀ {ops : List FileOp} (dir : DataDir),
    writeHeight k b ∈ ops → (∀ b', writeHeight k b' ∈ ops → b' = b) → removeHeight k ∉ ops →
    (dir.after ops).store.load k = some b
  | [], _, hmem, _, _ => by cases hmem
  | op :: ops, dir, hmem, hunique, hremove => by
      have hremove' : removeHeight k ∉ ops := fun hb => hremove (List.mem_cons_of_mem _ hb)
      by_cases hrest : writeHeight k b ∈ ops
      · exact after_load_written (op.apply dir) hrest
          (fun b' hb' => hunique b' (List.mem_cons_of_mem _ hb')) hremove'
      · have hop : writeHeight k b = op := (List.mem_cons.mp hmem).resolve_right hrest
        subst hop
        refine (after_load_same ((writeHeight k b).apply dir) (fun b' hb' => ?_)
          hremove').trans (Finmap.lookup_insert _)
        rw [hunique b' (List.mem_cons_of_mem _ hb')] at hb'
        exact hrest hb'

theorem after_load_sub {k : Nat} {b : Block} : ∀ {ops : List FileOp} (dir : DataDir),
    (dir.after ops).store.load k = some b → writeHeight k b ∈ ops ∨ dir.store.load k = some b
  | [], _, h => Or.inr h
  | op :: ops, dir, h => by
      rcases after_load_sub (op.apply dir) h with hmem | hold
      · exact Or.inl (List.mem_cons_of_mem _ hmem)
      · cases op with
        | writeHeight j b' =>
            simp only [FileOp.apply, BlockStore.load, FinMap.lookup_insert_ite] at hold
            split at hold
            · next heq =>
                cases hold
                exact Or.inl (heq ▸ List.mem_cons_self)
            · exact Or.inr hold
        | removeHeight j =>
            simp only [FileOp.apply, BlockStore.load, FinMap.lookup_erase_ite] at hold
            split at hold
            · cases hold
            · exact Or.inr hold
        | _ => exact Or.inr hold

theorem after_loadByHash_sub {id : Hash512} {b : Block} : ∀ {ops : List FileOp} (dir : DataDir),
    (dir.after ops).store.loadByHash id = some b →
      writeByHash id b ∈ ops ∨ dir.store.loadByHash id = some b
  | [], _, h => Or.inr h
  | op :: ops, dir, h => by
      rcases after_loadByHash_sub (op.apply dir) h with hmem | hold
      · exact Or.inl (List.mem_cons_of_mem _ hmem)
      · cases op with
        | writeByHash j b' =>
            simp only [FileOp.apply, BlockStore.loadByHash, FinMap.lookup_insert_ite] at hold
            split at hold
            · next heq =>
                cases hold
                exact Or.inl (heq ▸ List.mem_cons_self)
            · exact Or.inr hold
        | _ => exact Or.inr hold

/-- The member of the directory that a kind of operation sets. Operations of
other kinds leave it, and after an operation of the kind, if there is one, it
has the value that all of them set. -/
theorem after_field {α β : Type} (get : DataDir → α) (op : β → FileOp) (val : β → α)
    (hsame : ∀ dir o, (∀ x, o ≠ op x) → get (o.apply dir) = get dir)
    (hset : ∀ dir x, get ((op x).apply dir) = val x) (ops : List FileOp) (dir : DataDir) :
    ((∀ x, op x ∉ ops) → get (dir.after ops) = get dir) ∧
      ∀ x, op x ∈ ops → (∀ y, op y ∈ ops → val y = val x) → get (dir.after ops) = val x := by
  induction ops generalizing dir with
  | nil => exact ⟨fun _ => rfl, fun x hx => by cases hx⟩
  | cons o ops ih =>
      obtain ⟨hkeep, hwritten⟩ := ih (o.apply dir)
      refine ⟨fun hnot => ?_, fun x hx hall => ?_⟩
      · refine (hkeep fun x hx => hnot x (List.mem_cons_of_mem _ hx)).trans (hsame dir o ?_)
        rintro x rfl
        exact hnot x List.mem_cons_self
      · by_cases hrest : ∃ y, op y ∈ ops
        · obtain ⟨y, hy⟩ := hrest
          rw [← hall y (List.mem_cons_of_mem _ hy)]
          refine hwritten y hy fun z hz => ?_
          rw [hall z (List.mem_cons_of_mem _ hz), hall y (List.mem_cons_of_mem _ hy)]
        · have hnot : ∀ y, op y ∉ ops := fun y hy => hrest ⟨y, hy⟩
          have ho : op x = o := (List.mem_cons.mp hx).resolve_right (hnot x)
          subst ho
          exact (hkeep hnot).trans (hset dir x)

/-! ## What has been done when an activation is interrupted -/

theorem mem_blockOps {op : FileOp} : ∀ {entries : List (Hash512 × Block)} {i : Nat},
    op ∈ blockOps i entries ↔ ∃ (j : Nat) (e : Hash512 × Block), entries[j]? = some e ∧
      (op = writeHeight (i + j) e.2 ∨ op = writeByHash e.1 e.2)
  | [], i => by simp [blockOps]
  | (id, blk) :: rest, i => by
      rw [blockOps, List.mem_cons, List.mem_cons, mem_blockOps]
      constructor
      · rintro (h | h | ⟨j, e, he, h⟩)
        · exact ⟨0, _, rfl, Or.inl h⟩
        · exact ⟨0, _, rfl, Or.inr h⟩
        · refine ⟨j + 1, e, he, ?_⟩
          rw [show i + (j + 1) = i + 1 + j by omega]
          exact h
      · rintro ⟨j, e, he, h⟩
        cases j with
        | zero =>
            cases he
            exact h.elim Or.inl fun h => Or.inr (Or.inl h)
        | succ j =>
            rw [List.getElem?_cons_succ] at he
            refine Or.inr (Or.inr ⟨j, e, he, ?_⟩)
            rw [show i + 1 + j = i + (j + 1) by omega]
            exact h

theorem mem_pruneOps {op : FileOp} : ∀ {fuel cursor : Nat} {files : FinMap Nat Block},
    op ∈ pruneOps fuel cursor files → ∃ k, cursor ≤ k ∧ op = removeHeight k
  | 0, _, _, h => by cases h
  | fuel + 1, cursor, files, h => by
      rw [pruneOps] at h
      split at h
      · rcases List.mem_cons.mp h with rfl | h
        · exact ⟨cursor, Nat.le_refl _, rfl⟩
        · obtain ⟨k, hk, rfl⟩ := mem_pruneOps h
          exact ⟨k, by omega, rfl⟩
      · cases h

theorem mem_checkpointOps {op : FileOp} : op ∈ checkpointOps s path ↔
    ∃ hash, op = writeLocalCheckpoint (checkpointHeight (path.length - 1)) hash ∧
      s.manualCheckpointPinned = false ∧ path[checkpointHeight (path.length - 1)]? = some hash ∧
      s.localCheckpoint ≠ some (checkpointHeight (path.length - 1), hash) := by
  unfold checkpointOps
  cases s.manualCheckpointPinned with
  | true => simp
  | false =>
      cases path[checkpointHeight (path.length - 1)]? with
      | none => simp
      | some hash =>
          by_cases hcp : s.localCheckpoint = some (checkpointHeight (path.length - 1), hash)
          · simp [hcp]
          · simp [hcp]

/-- An element of a prefix is of the first part, or all of the first part is
in the prefix. -/
theorem mem_take_append {α : Type} {x : α} {xs ys : List α} {n : Nat}
    (h : x ∈ (xs ++ ys).take n) : x ∈ xs ∨ (x ∈ ys ∧ xs ⊆ (xs ++ ys).take n) := by
  by_cases hn : n ≤ xs.length
  · rw [List.take_append_of_le_length hn] at h
    exact Or.inl (List.mem_of_mem_take h)
  · rcases List.mem_append.mp (List.mem_of_mem_take h) with hx | hy
    · exact Or.inl hx
    · refine Or.inr ⟨hy, fun z hz => ?_⟩
      rw [List.take_append, List.take_of_length_le (by omega)]
      exact List.mem_append_left _ hz

/-- What a prefix of the operations of an activation consists of. -/
structure Underway (env : Env) (s : Blockchain) (path : List Hash512) (blocks : List Block)
    (utxo : UTXOSet) (done : List FileOp) : Prop where
  height : ∀ {k b}, writeHeight k b ∈ done → blocks[k]? = some b
  byHash : ∀ {id b}, writeByHash id b ∈ done → (id, b) ∈ path.zip blocks
  remove : ∀ {k}, removeHeight k ∈ done →
    path.length ≤ k ∧ ∀ j b, blocks[j]? = some b → writeHeight j b ∈ done
  checkpoint : ∀ {k hash}, writeLocalCheckpoint k hash ∈ done →
    (k = checkpointHeight (path.length - 1) ∧ path[k]? = some hash ∧
      s.manualCheckpointPinned = false) ∧ ∀ j b, blocks[j]? = some b → writeHeight j b ∈ done
  index : ∀ {ids}, writeIndex ids ∈ done → ids = path ∧ stagingOps s path blocks ⊆ done
  headers : ∀ {entries}, writeHeaders entries ∈ done →
    entries = env.visitOrder.visit s.index ∧ writeIndex path ∈ done
  chainstate : ∀ {height tip map}, writeChainstate height tip map ∈ done →
    height = path.length - 1 ∧ tip = path.getLast?.getD s.tipHash ∧ map = utxo ∧
      writeIndex path ∈ done

theorem mem_blockOps_height (hlen : path.length = blocks.length) {j : Nat} {b : Block} :
    writeHeight j b ∈ blockOps 0 (path.zip blocks) ↔ blocks[j]? = some b := by
  rw [mem_blockOps]
  constructor
  · rintro ⟨i, e, he, h | h⟩
    · cases h
      rw [Nat.zero_add]
      exact (List.getElem?_zip_eq_some.mp he).2
    · cases h
  · intro hb
    have hlt := (List.getElem?_eq_some_iff.mp hb).1
    have hid := List.getElem?_eq_getElem (show j < path.length by omega)
    exact ⟨j, (path[j], b), List.getElem?_zip_eq_some.mpr ⟨hid, hb⟩,
      Or.inl (by rw [Nat.zero_add])⟩

/-- The kinds of operations before `index.dat` is written. -/
theorem mem_stagingOps (hlen : path.length = blocks.length) (hne : path ≠ []) {op : FileOp}
    (h : op ∈ stagingOps s path blocks) :
    (∃ j b, blocks[j]? = some b ∧ op = writeHeight j b) ∨
      (∃ e ∈ path.zip blocks, op = writeByHash e.1 e.2) ∨
      (∃ k, path.length ≤ k ∧ op = removeHeight k) ∨ op ∈ checkpointOps s path := by
  have hpos := List.length_pos_iff.mpr hne
  rw [stagingOps] at h
  rcases List.mem_append.mp h with h | h
  · rcases List.mem_append.mp h with h | h
    · obtain ⟨j, e, he, rfl | rfl⟩ := mem_blockOps.mp h
      · rw [Nat.zero_add]
        exact Or.inl ⟨j, e.2, (List.getElem?_zip_eq_some.mp he).2, rfl⟩
      · exact Or.inr (Or.inl ⟨e, List.mem_of_getElem? he, rfl⟩)
    · obtain ⟨k, hk, rfl⟩ := mem_pruneOps h
      exact Or.inr (Or.inr (Or.inl ⟨k, by omega, rfl⟩))
  · exact Or.inr (Or.inr (Or.inr h))

theorem underway_take (env : Env) (hblocks : s.BlocksOf path blocks) (hne : path ≠ [])
    (utxo : UTXOSet) (n : Nat) :
    Underway env s path blocks utxo ((activationOps env s path utxo).take n) := by
  have hlen := hblocks.length_eq
  rw [activationOps, hblocks.mapM_eq]
  simp only
  generalize hdone : (stagingOps s path blocks ++ [writeIndex path,
    writeHeaders (env.visitOrder.visit s.index),
    writeChainstate (path.length - 1) (path.getLast?.getD s.tipHash) utxo]).take n = done
  have hstaged : ∀ {op}, op ∈ done → op ∈ stagingOps s path blocks ∨
      (op ∈ [writeIndex path, writeHeaders (env.visitOrder.visit s.index),
        writeChainstate (path.length - 1) (path.getLast?.getD s.tipHash) utxo] ∧
        stagingOps s path blocks ⊆ done) :=
    fun h => hdone ▸ mem_take_append (hdone.symm ▸ h)
  -- the block files come first
  have hfirst : ∀ {op}, op ∈ done → op ∉ blockOps 0 (path.zip blocks) →
      ∀ j b, blocks[j]? = some b → writeHeight j b ∈ done := by
    intro op h hnot j b hb
    rw [← hdone, stagingOps, List.append_assoc, List.append_assoc] at h ⊢
    obtain ⟨-, hsub⟩ := (mem_take_append h).resolve_left hnot
    exact hsub ((mem_blockOps_height hlen).mpr hb)
  -- the index comes before the headers and the snapshot
  have hindex : ∀ {op}, op ∈ done → op ∉ stagingOps s path blocks → writeIndex path ∈ done := by
    intro op h hnot
    by_cases hop : op = writeIndex path
    · exact hop ▸ h
    · rw [← hdone, show ∀ x y z : FileOp, stagingOps s path blocks ++ [x, y, z]
        = (stagingOps s path blocks ++ [x]) ++ [y, z] from fun _ _ _ => by simp] at h ⊢
      obtain ⟨-, hsub⟩ := (mem_take_append h).resolve_left (by simp [hnot, hop])
      exact hsub (by simp)
  have hkind := fun {op} (h : op ∈ stagingOps s path blocks) => mem_stagingOps hlen hne h
  refine ⟨?_, ?_, ?_, ?_, ?_, ?_, ?_⟩
  · intro k b h
    rcases hstaged h with h | ⟨h, -⟩
    · obtain ⟨j, b', hb, heq⟩ | ⟨e, -, heq⟩ | ⟨j, -, heq⟩ | h := hkind h
      · cases heq
        exact hb
      · cases heq
      · cases heq
      · obtain ⟨hash, heq, -⟩ := mem_checkpointOps.mp h
        cases heq
    · simp at h
  · intro id b h
    rcases hstaged h with h | ⟨h, -⟩
    · obtain ⟨j, b', -, heq⟩ | ⟨e, he, heq⟩ | ⟨j, -, heq⟩ | h := hkind h
      · cases heq
      · cases heq
        exact he
      · cases heq
      · obtain ⟨hash, heq, -⟩ := mem_checkpointOps.mp h
        cases heq
    · simp at h
  · intro k h
    refine ⟨?_, hfirst h fun hmem => ?_⟩
    · rcases hstaged h with h | ⟨h, -⟩
      · obtain ⟨j, b', -, heq⟩ | ⟨e, -, heq⟩ | ⟨j, hj, heq⟩ | h := hkind h
        · cases heq
        · cases heq
        · cases heq
          exact hj
        · obtain ⟨hash, heq, -⟩ := mem_checkpointOps.mp h
          cases heq
      · simp at h
    · obtain ⟨j, e, -, heq | heq⟩ := mem_blockOps.mp hmem <;> cases heq
  · intro k hash h
    refine ⟨?_, hfirst h fun hmem => ?_⟩
    · rcases hstaged h with h | ⟨h, -⟩
      · obtain ⟨j, b', -, heq⟩ | ⟨e, -, heq⟩ | ⟨j, -, heq⟩ | h := hkind h
        · cases heq
        · cases heq
        · cases heq
        · obtain ⟨hash', heq, hpin, hget, -⟩ := mem_checkpointOps.mp h
          cases heq
          exact ⟨rfl, hget, hpin⟩
      · simp at h
    · obtain ⟨j, e, -, heq | heq⟩ := mem_blockOps.mp hmem <;> cases heq
  · intro ids h
    rcases hstaged h with h | ⟨h, hsub⟩
    · obtain ⟨j, b', -, heq⟩ | ⟨e, -, heq⟩ | ⟨j, -, heq⟩ | h := hkind h
      · cases heq
      · cases heq
      · cases heq
      · obtain ⟨hash, heq, -⟩ := mem_checkpointOps.mp h
        cases heq
    · exact ⟨by simpa using h, hsub⟩
  · intro entries h
    have hnot : writeHeaders entries ∉ stagingOps s path blocks := by
      intro h
      obtain ⟨j, b', -, heq⟩ | ⟨e, -, heq⟩ | ⟨j, -, heq⟩ | h := hkind h
      · cases heq
      · cases heq
      · cases heq
      · obtain ⟨hash, heq, -⟩ := mem_checkpointOps.mp h
        cases heq
    obtain ⟨hmem, -⟩ := (hstaged h).resolve_left hnot
    exact ⟨by simpa using hmem, hindex h hnot⟩
  · intro height tip map h
    have hnot : writeChainstate height tip map ∉ stagingOps s path blocks := by
      intro h
      obtain ⟨j, b', -, heq⟩ | ⟨e, -, heq⟩ | ⟨j, -, heq⟩ | h := hkind h
      · cases heq
      · cases heq
      · cases heq
      · obtain ⟨hash, heq, -⟩ := mem_checkpointOps.mp h
        cases heq
    obtain ⟨hmem, -⟩ := (hstaged h).resolve_left hnot
    obtain ⟨hheight, htip, hmap⟩ : height = path.length - 1 ∧ tip = path.getLast?.getD s.tipHash ∧
        map = utxo := by simpa using hmem
    exact ⟨hheight, htip, hmap, hindex h hnot⟩

end Blockchain

end Cryptex
