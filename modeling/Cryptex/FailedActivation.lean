import Cryptex.Interruption
import Cryptex.Lookup

/-!
# An activation that fails

`activate_path` writes the blocks of the new path over the height files one
after the other, and switches the memory when all of them are written. When
a write fails it returns, with the files that it has overwritten, and with
what the failed write has left of its own file: the file as it was when it
could not be opened, else a file that was cut short.
-/

namespace Cryptex

/-- The contents that a failed write makes of those that a file had. -/
abbrev Remains := DataFile → Option Block → Option Block

/-- A block file with other contents. -/
def BlockStore.setFile (st : BlockStore) : DataFile → Option Block → BlockStore
  | .height h, some b => { st with heightFiles := st.heightFiles.insert h b }
  | .height h, none => { st with heightFiles := st.heightFiles.erase h }
  | .byHash id, some b => { st with hashFiles := st.hashFiles.insert id b }
  | .byHash id, none => { st with hashFiles := st.hashFiles.erase id }
  | _, _ => st

def BlockStore.readFile (st : BlockStore) : DataFile → Option Block
  | .height h => st.load h
  | .byHash id => st.loadByHash id
  | _ => none

namespace Blockchain

variable {c : Crypto} {p : ChainParams} {env : Env} {skip : Bool} {H : Set BlockHeader}
  {s : Blockchain} {path : List Hash512}

/-! ## The activation -/

/-- The first file that cannot be written, of a path from height `i` on. -/
def failingFile (w : Writable) : Nat → List Hash512 → Option DataFile
  | _, [] => none
  | i, id :: rest =>
      if !w (.height i) then some (.height i)
      else if !w (.byHash id) then some (.byHash id)
      else failingFile w (i + 1) rest

section

variable (p : ChainParams) (env : Env) (remains : Remains)

/-- `activate_path`, with what the failed write leaves. -/
def activatePathLeaving (s : Blockchain) (path : List Hash512) (newUtxo : UTXOSet)
    (newTipBits : UInt32) : Bool × Blockchain :=
  match activatePath p env s path newUtxo newTipBits with
  | (true, s') => (true, s')
  | (false, s') =>
      match path.mapM fun id => s.getBlockByHash id.toNat, failingFile env.canWrite 0 path with
      | some _, some f =>
          (false, { s' with store := s'.store.setFile f (remains f (s'.store.readFile f)) })
      | _, _ => (false, s')

end

/-- The height files hold the blocks of the active ids. -/
def Serves (c : Crypto) (s : Blockchain) : Prop :=
  ∀ h, h ≤ s.bestHeight → ∃ id b, s.heightMap[h]? = some id ∧ s.getBlock h = some b ∧
    b.header.powHash c = id

/-- An activation fails on the file of a height. -/
structure Breaks (env : Env) (path : List Hash512) (height : Nat) : Prop where
  lt : height < path.length
  closed : env.canWrite (.height height) = false
  heights : ∀ j, j < height → env.canWrite (.height j) = true
  ids : ∀ (j : Nat) id, j < height → path[j]? = some id → env.canWrite (.byHash id) = true

/-- Up to the best height, the files that are overwritten before a write fails
get the block that they have, and a height file whose own write fails is left
with the block of its height. -/
structure Spares (c : Crypto) (env : Env) (remains : Remains) (s : Blockchain)
    (path : List Hash512) : Prop where
  overwritten : ∀ h, h ≤ s.bestHeight → Reaches env path h → path[h]? = s.heightMap[h]?
  failing : ∀ h, h ≤ s.bestHeight → Breaks env path h → ∃ b,
    remains (.height h) (s.getBlock h) = some b ∧ s.heightMap[h]? = some (b.header.powHash c)

/-! ## The failing file -/

theorem setFile_readFile (st : BlockStore) (f : DataFile) : st.setFile f (st.readFile f) = st := by
  cases f with
  | height h =>
      rw [BlockStore.readFile, BlockStore.load]
      cases hb : st.heightFiles.lookup h with
      | some b => rw [BlockStore.setFile, FinMap.insert_eq_self hb]
      | none => rw [BlockStore.setFile, FinMap.erase_eq_self hb]
  | byHash id =>
      rw [BlockStore.readFile, BlockStore.loadByHash]
      cases hb : st.hashFiles.lookup id with
      | some b => rw [BlockStore.setFile, FinMap.insert_eq_self hb]
      | none => rw [BlockStore.setFile, FinMap.erase_eq_self hb]
  | _ => rfl

/-- When a failed write leaves its file as it was, this is `activate_path`. -/
theorem activatePathLeaving_unchanged (s : Blockchain) (path : List Hash512) (newUtxo : UTXOSet)
    (newTipBits : UInt32) :
    activatePathLeaving p env (fun _ old => old) s path newUtxo newTipBits
      = activatePath p env s path newUtxo newTipBits := by
  rw [activatePathLeaving]
  split
  · next s' h => rw [h]
  · next s' h =>
      rw [h]
      split
      · rw [setFile_readFile]
      · rfl

theorem setFile_load (st : BlockStore) (f : DataFile) (o : Option Block) (h : Nat) :
    (st.setFile f o).load h = if f = .height h then o else st.load h := by
  have hne : ∀ k, h ≠ k → (DataFile.height k) ≠ .height h := fun k hk heq => by
    cases heq
    exact hk rfl
  cases f with
  | height k =>
      by_cases hk : h = k
      · subst hk
        rw [if_pos rfl]
        cases o with
        | some b => exact Finmap.lookup_insert _
        | none => exact Finmap.lookup_erase _ _
      · rw [if_neg (hne k hk)]
        cases o with
        | some b => exact Finmap.lookup_insert_of_ne _ hk
        | none => exact Finmap.lookup_erase_ne hk
  | byHash id =>
      rw [if_neg nofun]
      cases o <;> rfl
  | _ => exact (if_neg nofun).symm

/-- The failing file is that of a height when the writes break there. -/
theorem failingFile_height_iff {w : Writable} : ∀ {i : Nat} {path : List Hash512} {k : Nat},
    failingFile w i path = some (.height k) ↔ ∃ j, k = i + j ∧ j < path.length ∧
      w (.height (i + j)) = false ∧ (∀ m, m < j → w (.height (i + m)) = true) ∧
      ∀ (m : Nat) id, m < j → path[m]? = some id → w (.byHash id) = true
  | i, [], k => by simp [failingFile]
  | i, id :: rest, k => by
      rw [failingFile]
      cases hheight : w (.height i) with
      | false =>
          rw [if_pos (by rfl)]
          constructor
          · intro h
            cases h
            exact ⟨0, rfl, Nat.succ_pos _, hheight, fun m hm => absurd hm (Nat.not_lt_zero m),
              fun m _ hm => absurd hm (Nat.not_lt_zero m)⟩
          · rintro ⟨j, rfl, -, -, hbefore, -⟩
            cases j with
            | zero => rfl
            | succ j =>
                have h0 := hbefore 0 (Nat.succ_pos j)
                rw [Nat.add_zero, hheight] at h0
                cases h0
      | true =>
          rw [if_neg (by exact Bool.false_ne_true)]
          cases hfile : w (.byHash id) with
          | false =>
              rw [if_pos (by rfl)]
              refine iff_of_false nofun ?_
              rintro ⟨j, rfl, -, hclosed, -, hids⟩
              cases j with
              | zero =>
                  rw [Nat.add_zero, hheight] at hclosed
                  cases hclosed
              | succ j =>
                  have h0 := hids 0 id (Nat.succ_pos j) rfl
                  rw [hfile] at h0
                  cases h0
          | true =>
              rw [if_neg (by exact Bool.false_ne_true), failingFile_height_iff]
              constructor
              · rintro ⟨j, rfl, hlt, hclosed, hheights, hids⟩
                refine ⟨j + 1, by omega, Nat.succ_lt_succ hlt, ?_, fun m hm => ?_, fun m id' hm hid => ?_⟩
                · rw [show i + (j + 1) = i + 1 + j by omega]
                  exact hclosed
                · cases m with
                  | zero => exact hheight
                  | succ m =>
                      rw [show i + (m + 1) = i + 1 + m by omega]
                      exact hheights m (by omega)
                · cases m with
                  | zero =>
                      cases hid
                      exact hfile
                  | succ m => exact hids m id' (by omega) hid
              · rintro ⟨j, rfl, hlt, hclosed, hheights, hids⟩
                cases j with
                | zero =>
                    rw [Nat.add_zero, hheight] at hclosed
                    cases hclosed
                | succ j =>
                    refine ⟨j, by omega, Nat.lt_of_succ_lt_succ hlt, ?_, fun m hm => ?_,
                      fun m id' hm hid => hids (m + 1) id' (by omega) hid⟩
                    · rw [show i + 1 + j = i + (j + 1) by omega]
                      exact hclosed
                    · rw [show i + 1 + m = i + (m + 1) by omega]
                      exact hheights (m + 1) (by omega)

theorem breaks_iff {h : Nat} :
    failingFile env.canWrite 0 path = some (.height h) ↔ Breaks env path h := by
  rw [failingFile_height_iff]
  constructor
  · rintro ⟨j, rfl, hlt, hclosed, hheights, hids⟩
    simp only [Nat.zero_add] at *
    exact ⟨hlt, hclosed, hheights, hids⟩
  · rintro ⟨hlt, hclosed, hheights, hids⟩
    refine ⟨h, by omega, hlt, ?_, fun m hm => ?_, hids⟩
    · rw [Nat.zero_add]
      exact hclosed
    · rw [Nat.zero_add]
      exact hheights m hm

theorem exists_failingFile {w : Writable} : ∀ {i : Nat} {path : List Hash512} {blocks : List Block}
    {st : BlockStore}, path.length = blocks.length → (writePath w st i (path.zip blocks)).2 = false →
    ∃ f, failingFile w i path = some f
  | i, [], _, st, _, h => by cases h
  | i, id :: path, b :: blocks, st, hlen, h => by
      rw [failingFile]
      cases hheight : w (.height i) with
      | false => exact ⟨_, if_pos rfl⟩
      | true =>
          cases hfile : w (.byHash id) with
          | false =>
              rw [if_neg (by exact Bool.false_ne_true)]
              exact ⟨_, if_pos rfl⟩
          | true =>
              rw [if_neg (by exact Bool.false_ne_true), if_neg (by exact Bool.false_ne_true)]
              rw [List.zip_cons_cons, writePath] at h
              simp only [BlockStore.store, hheight, if_true, BlockStore.storeByHash, hfile] at h
              exact exists_failingFile (Nat.succ.inj hlen) h

/-! ## The height files after a failure -/

/-- A height file has the block of the path, what the failed write has left, or
what it had. -/
theorem failed_load {blocks : List Block} (hblocks : s.BlocksOf path blocks) {utxo : UTXOSet}
    {bits : UInt32} {remains : Remains}
    (hfail : (activatePathLeaving p env remains s path utxo bits).1 = false) :
    (∃ store, (activatePathLeaving p env remains s path utxo bits).2 = { s with store := store }) ∧
    ∀ h,
      (Reaches env path h →
        (activatePathLeaving p env remains s path utxo bits).2.store.load h = blocks[h]?) ∧
      (Breaks env path h → (activatePathLeaving p env remains s path utxo bits).2.store.load h
        = remains (.height h) (s.store.load h)) ∧
      (¬ Reaches env path h → ¬ Breaks env path h →
        (activatePathLeaving p env remains s path utxo bits).2.store.load h = s.store.load h) := by
  have hlen := hblocks.length_eq
  have hwritten : ∃ store, activatePath p env s path utxo bits = (false, { s with store := store }) ∧
      writePath env.canWrite s.store 0 (path.zip blocks) = (store, false) := by
    rw [activatePathLeaving] at hfail
    rw [activatePath, hblocks.mapM_eq] at hfail ⊢
    simp only at hfail ⊢
    cases hw : writePath env.canWrite s.store 0 (path.zip blocks) with
    | mk store ok =>
        rw [hw] at hfail
        cases ok with
        | true => simp only at hfail; cases hfail
        | false => exact ⟨store, rfl, rfl⟩
  obtain ⟨store, hact, hw⟩ := hwritten
  obtain ⟨f, hf⟩ := exists_failingFile hlen (congrArg Prod.snd hw)
  have hstate : (activatePathLeaving p env remains s path utxo bits).2
      = { s with store := store.setFile f (remains f (store.readFile f)) } := by
    rw [activatePathLeaving, hact, hblocks.mapM_eq, hf]
  have hload : ∀ h, (activatePathLeaving p env remains s path utxo bits).2.store.load h
      = if f = .height h then remains f (store.readFile f) else store.load h := fun h => by
    rw [hstate]
    exact setFile_load store f _ h
  have hstore : store = (writePath env.canWrite s.store 0 (path.zip blocks)).1 := by rw [hw]
  -- what is reached is written, what is not reached is kept
  have hcases := fun h => writePath_height_cases (w := env.canWrite) (path.zip blocks) s.store 0 h
  refine ⟨⟨_, hstate⟩, fun h => ⟨fun hreach => ?_, fun hbreaks => ?_, fun hnot hnot' => ?_⟩⟩
  · have hne : f ≠ .height h := by
      rintro rfl
      have hopen := hreach.heights h (Nat.le_refl h)
      rw [(breaks_iff.mp hf).closed] at hopen
      cases hopen
    have hb := List.getElem?_eq_getElem (show h < blocks.length from hlen ▸ hreach.lt)
    have hid := List.getElem?_eq_getElem hreach.lt
    rw [hload, if_neg hne, hstore]
    rcases hcases h with ⟨j, e, hj, he, -, hloaded⟩ | ⟨hno, -⟩
    · rw [Nat.zero_add] at hj
      subst hj
      rw [hloaded, (List.getElem?_zip_eq_some.mp he).2]
    · exact absurd ((writesTo_iff hlen hreach.lt).mpr hreach)
        (hno h _ (Nat.zero_add h).symm (List.getElem?_zip_eq_some (z := (_, _)) |>.mpr ⟨hid, hb⟩))
  · have heq : f = .height h := Option.some.inj (hf.symm.trans (breaks_iff.mpr hbreaks))
    have hkept : store.load h = s.store.load h := by
      rw [hstore]
      rcases hcases h with ⟨j, e, hj, he, hto, -⟩ | ⟨-, hloaded⟩
      · rw [Nat.zero_add] at hj
        subst hj
        have hopen := hto.1 h (Nat.le_refl h)
        rw [Nat.zero_add, hbreaks.closed] at hopen
        cases hopen
      · exact hloaded
    rw [hload, if_pos heq, heq, BlockStore.readFile, hkept]
  · have hne : f ≠ .height h := by
      rintro rfl
      exact hnot' (breaks_iff.mp hf)
    rw [hload, if_neg hne, hstore]
    rcases hcases h with ⟨j, e, hj, he, hto, -⟩ | ⟨-, hloaded⟩
    · rw [Nat.zero_add] at hj
      subst hj
      have hlt := (List.getElem?_eq_some_iff.mp (List.getElem?_zip_eq_some.mp he).1).1
      exact absurd ((writesTo_iff hlen hlt).mp hto) hnot
    · exact hloaded

/-- A failed activation leaves the memory alone, and the files serve the
active chain on if and only if the writes before the failure have spared it. -/
theorem failed_activation_iff (hH : CollisionFree c H) (hs : s.Coherent c p H) (hserves : s.Serves c)
    (hact : s.Activates c p env skip path) (remains : Remains) {utxo : UTXOSet} {bits : UInt32}
    (hfail : (activatePathLeaving p env remains s path utxo bits).1 = false) :
    ((∃ store, (activatePathLeaving p env remains s path utxo bits).2 = { s with store := store }) ∧
        (activatePathLeaving p env remains s path utxo bits).2.Serves c) ↔
      s.Spares c env remains path := by
  obtain ⟨tip, blk, hpath, hpool⟩ := hact.linked
  obtain ⟨blocks, hblocks, hheaders, -, -⟩ := hs.blocks_of_valid hH hpath hpool hact.valid
  obtain ⟨⟨store, hstate⟩, hload⟩ := failed_load hblocks hfail
  generalize (activatePathLeaving p env remains s path utxo bits).2 = s' at hstate hload
  subst hstate
  have hreached : ∀ {h}, Reaches env path h → ∃ b, store.load h = some b ∧
      path[h]? = some (b.header.powHash c) := by
    intro h hreach
    have hid := List.getElem?_eq_getElem hreach.lt
    have hb := List.getElem?_eq_getElem (show h < blocks.length from hblocks.length_eq ▸ hreach.lt)
    refine ⟨_, ((hload h).1 hreach).trans hb, ?_⟩
    rw [HeadersOf.powHash hs.index hheaders hid hb]
    exact hid
  constructor
  · rintro ⟨-, hafter⟩
    refine ⟨fun h hle hreach => ?_, fun h hle hbreaks => ?_⟩
    · obtain ⟨id, b, hid, hb, hpow⟩ := hafter h hle
      obtain ⟨b', hb', hpath'⟩ := hreached hreach
      rw [getBlock, hb'] at hb
      cases hb
      rw [hpath', hpow]
      exact hid.symm
    · obtain ⟨id, b, hid, hb, hpow⟩ := hafter h hle
      refine ⟨b, ((hload h).2.1 hbreaks).symm.trans hb, ?_⟩
      rw [hpow]
      exact hid
  · intro hspares
    refine ⟨⟨store, rfl⟩, fun h hle => ?_⟩
    by_cases hreach : Reaches env path h
    · obtain ⟨b, hb, hpath'⟩ := hreached hreach
      exact ⟨_, b, (hspares.overwritten h hle hreach).symm.trans hpath', hb, rfl⟩
    · by_cases hbreaks : Breaks env path h
      · obtain ⟨b, hb, hid⟩ := hspares.failing h hle hbreaks
        exact ⟨_, b, hid, ((hload h).2.1 hbreaks).trans hb, rfl⟩
      · obtain ⟨id, b, hid, hb, hpow⟩ := hserves h hle
        exact ⟨id, b, hid, ((hload h).2.2 hreach hbreaks).trans hb, hpow⟩

/-- An activation of a path whose files cannot all be written fails. -/
theorem activatePathLeaving_fails {blocks : List Block} (hblocks : s.BlocksOf path blocks)
    (hclosed : ¬ PathWritable env path) (remains : Remains) (utxo : UTXOSet) (bits : UInt32) :
    (activatePathLeaving p env remains s path utxo bits).1 = false := by
  have hfails : (writePath env.canWrite s.store 0 (path.zip blocks)).2 = false := by
    rw [← pathWritable_iff hblocks.length_eq s.store] at hclosed
    simpa using hclosed
  cases hw : writePath env.canWrite s.store 0 (path.zip blocks) with
  | mk store ok =>
      rw [hw] at hfails
      simp only at hfails
      subst hfails
      rw [activatePathLeaving, activatePath, hblocks.mapM_eq]
      simp only [hw]
      split <;> rfl

/-! ## Samples -/

open Regtest

/-- Only the files of the heights below one can be written. -/
def fullFrom (h : Nat) : Env :=
  { Regtest.env with canWrite := fun f => match f with | .height k => k < h | _ => true }

theorem not_pathWritable_fullFrom {h : Nat} {path : List Hash512} (hlt : h < path.length) :
    ¬ PathWritable (fullFrom h) path := by
  intro hw
  have hopen := (hw h _ (List.getElem?_eq_getElem hlt)).1
  simp [fullFrom] at hopen

theorem Described.serves (hd : s.Described c) (hs : s.Coherent c p H) : s.Serves c := by
  intro h hle
  have hbest := hs.best
  have hid := List.getElem?_eq_getElem (show h < s.heightMap.length by omega)
  obtain ⟨b, hb, hpow⟩ := hd.complete hid
  exact ⟨_, b, hid, hb, hpow⟩

/-- A block on a chain, and a fork of two blocks that is about to replace it. -/
theorem rival : ∃ (s : Blockchain) (path : List Hash512),
    s.Coherent crypto .regtest Regtest.H ∧ s.Serves crypto ∧
    s.Activates crypto .regtest (fullFrom 2) false path ∧ path.length = 3 ∧ s.bestHeight = 1 ∧
    path[1]? ≠ s.heightMap[1]? := by
  have hrun : ((after [a1, b1]).map fun t =>
      let s := t.cacheBlock crypto Regtest.env b2
      let id := b2.header.powHash crypto
      let path := s.heightMap.take 1 ++ [b1.header.powHash crypto, id]
      decide ((s.buildPathToGenesis id = some path ∧ s.blockPool.lookup id = some b2 ∧
          (s.validatedPrefixLength crypto .regtest Regtest.env false path).length = path.length ∧
          s.pathWork .regtest s.heightMap < s.pathWork .regtest path ∧
          s.candidateMatchesLocalCheckpoint path = true) ∧
        path.length = 3 ∧ s.bestHeight = 1 ∧ path[1]? ≠ s.heightMap[1]?)) = some true := by
    decide +kernel
  obtain ⟨t, hafter, hfacts⟩ := Option.map_eq_some_iff.mp hrun
  obtain ⟨⟨hpath, hpool, hvalid, hheavier, hagrees⟩, hrest⟩ := of_decide_eq_true hfacts
  obtain ⟨ht, hd⟩ := (writable_after (by decide) hafter).described Regtest.collisionFree
  have hb : b2.header ∈ Regtest.H := by decide
  have hs : (t.cacheBlock crypto Regtest.env b2).Coherent crypto .regtest Regtest.H :=
    ht.cacheBlock Regtest.collisionFree hb
  have hdescribed : (t.cacheBlock crypto Regtest.env b2).Described crypto :=
    hd.cacheBlock Regtest.collisionFree ht hb
  clear hfacts hrun hafter
  generalize t.cacheBlock crypto Regtest.env b2 = s at *
  exact ⟨s, _, hs, hdescribed.serves hs,
    ⟨⟨_, _, buildPathToGenesis_iff.mp hpath, hpool⟩, hvalid, hheavier, hagrees⟩, hrest⟩

/-- The file of height 2 cannot be written: height 1 is served with the block
of the fork. -/
theorem not_failed_activation : ¬ ∀ (s : Blockchain) (path : List Hash512) (env : Env) (utxo : UTXOSet)
    (bits : UInt32), s.Coherent crypto .regtest Regtest.H → s.Serves crypto →
    s.Activates crypto .regtest env false path → (activatePath .regtest env s path utxo bits).1 = false →
    (activatePath .regtest env s path utxo bits).2.Serves crypto := by
  intro hclaim
  obtain ⟨s, path, hs, hserves, hact, hlen, hbest, hother⟩ := rival
  obtain ⟨tip, blk, hpath, hpool⟩ := hact.linked
  obtain ⟨blocks, hblocks, hheaders, -⟩ := hs.blocks_of_valid Regtest.collisionFree hpath hpool hact.valid
  have hfail : (activatePathLeaving .regtest (fullFrom 2) (fun _ old => old) s path ∅ 0).1 = false :=
    activatePathLeaving_fails hblocks (not_pathWritable_fullFrom (by omega)) _ ∅ 0
  have hreach : Reaches (fullFrom 2) path 1 := by
    refine ⟨by omega, fun j hj => ?_, fun j id _ _ => rfl⟩
    simp only [fullFrom, decide_eq_true_eq]
    omega
  obtain ⟨⟨store, hstate⟩, hload⟩ := failed_load hblocks hfail
  have hload1 := (hload 1).1 hreach
  rw [activatePathLeaving_unchanged] at hfail hstate hload1
  have hafter := hclaim s path (fullFrom 2) ∅ 0 hs hserves hact hfail
  rw [hstate] at hafter hload1
  obtain ⟨id, b, hid, hget, hpow⟩ := hafter 1 (Nat.le_of_eq hbest.symm)
  have hblock : blocks[1]? = some b := hload1.symm.trans hget
  have hpath1 := List.getElem?_eq_getElem (show 1 < path.length by omega)
  rw [← hpow, HeadersOf.powHash hs.index hheaders hpath1 hblock] at hid
  exact hother (hpath1.trans hid.symm)

end Blockchain

end Cryptex
