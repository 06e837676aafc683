import Cryptex.History
import Cryptex.Regtest
import Cryptex.Restart

/-!
# Runs on regtest

Opening an empty directory and delivering blocks one after the other, as a
function: what it returns is a state of a run. And the directory of a chain
of blocks, which a run can start from.
-/

namespace Cryptex

/-- Headers whose links are listed, each once and none zero. -/
theorem CollisionFree.of_list {c : Crypto} {hdrs : List BlockHeader}
    (hnd : (hdrs.map (BlockHeader.hash c)).Nodup) (hzero : 0 ∉ hdrs.map (BlockHeader.hash c)) :
    CollisionFree c {hdr | hdr ∈ hdrs} := by
  refine ⟨fun h₁ h₁mem h₂ h₂mem heq => ?_, fun hdr hmem heq => ?_⟩
  · exact List.inj_on_of_nodup_map hnd h₁mem h₂mem heq
  · exact hzero (heq ▸ List.mem_map_of_mem hmem)

namespace Blockchain

/-- `accept_block` for every block of a list. -/
def acceptAll (c : Crypto) (p : ChainParams) (env : Env) (skip : Bool) (fuel : Nat) :
    Blockchain → List Block → Option Blockchain
  | s, [] => some s
  | s, blk :: blks =>
      (acceptBlock c p env skip fuel s blk).bind fun res => acceptAll c p env skip fuel res.2 blks

/-- A run that meets its conditions may go on with any blocks. -/
theorem Reachable.acceptAll {c : Crypto} {p : ChainParams} {env : Env} {skip : Bool} {fuel : Nat}
    {H : Set BlockHeader} {R : Rules} (hpass : ∀ s blk, R.pass env skip s blk) :
    ∀ {blks : List Block} {s s' : Blockchain}, Reachable c p H R s →
      (∀ blk ∈ blks, blk.header ∈ H) →
      Blockchain.acceptAll c p env skip fuel s blks = some s' → Reachable c p H R s'
  | [], s, s', h, _, hrun => by
      cases hrun
      exact h
  | blk :: blks, s, s', h, hmem, hrun => by
      obtain ⟨⟨r, t⟩, hacc, hrest⟩ := Option.bind_eq_some_iff.mp hrun
      have hstep : Delivered c p H R.pass s t :=
        .call env skip fuel blk r (hmem blk List.mem_cons_self) (fun _ _ => hpass _ _) hacc
      exact (h.delivered hstep).acceptAll hpass (fun b hb => hmem b (List.mem_cons_of_mem _ hb)) hrest

end Blockchain

section

open Blockchain

/-- The files of a chain of blocks, without a snapshot. -/
def DataDir.ofBlocks (c : Crypto) (blocks : List Block) : DataDir where
  store := ⟨FinMap.insertAll ∅ (blocks.zipIdx.map fun e => (e.2, e.1)), ∅⟩
  files :=
    { index := some (blocks.map fun b => b.header.powHash c)
      headers := some (blocks.map fun b => (b.header.powHash c, b.header))
      chainstate := none
      localCheckpoint := none
      manualCheckpoint := none
      syncApproval := none }

theorem DataDir.ofBlocks_load (c : Crypto) (blocks : List Block) (i : Nat) :
    (DataDir.ofBlocks c blocks).store.load i = blocks[i]? := by
  have hkeys : (blocks.zipIdx.map fun e => (e.2, e.1)).map Prod.fst = List.range blocks.length := by
    rw [List.map_map]
    exact List.zipIdx_map_snd 0 blocks |>.trans List.range_eq_range'.symm
  cases hb : blocks[i]? with
  | some b =>
      refine FinMap.lookup_insertAll_of_mem (hkeys ▸ List.nodup_range) ?_
      exact List.mem_map.mpr ⟨(b, i), List.mem_zipIdx_iff_getElem?.mpr hb, rfl⟩
  | none =>
      refine (FinMap.lookup_insertAll_of_notMem ?_).trans (Finmap.lookup_empty i)
      rw [hkeys, List.mem_range, Nat.not_lt]
      exact List.getElem?_eq_none_iff.mp hb

/-- Blocks that name one another, from a genesis on, are a stored chain. -/
theorem Blockchain.StoredChain.ofBlocks {c : Crypto} {H : Set BlockHeader} (hH : CollisionFree c H)
    {blocks : List Block} (hne : blocks ≠ []) (hmem : ∀ b ∈ blocks, b.header ∈ H)
    (hnd : (blocks.map fun b => b.header.powHash c).Nodup)
    (hroot : ∀ b, blocks.head? = some b → b.header.prevBlockHash = 0)
    (hlinked : blocks.IsChain fun b b' => b'.header.prevBlockHash = b.header.hash c) :
    StoredChain c H (DataDir.ofBlocks c blocks) (blocks.map fun b => b.header.powHash c)
      (blocks.map fun b => (b.header.powHash c, b.header)) := by
  have hkeys : ((blocks.map fun b => (b.header.powHash c, b.header)).map Prod.fst).Nodup := by
    rw [List.map_map]
    exact hnd
  have hentry : ∀ e ∈ blocks.map fun b => (b.header.powHash c, b.header),
      e.2.powHash c = e.1 ∧ e.2 ∈ H := by
    intro e he
    obtain ⟨b, hb, rfl⟩ := List.mem_map.mp he
    exact ⟨rfl, hmem b hb⟩
  have hlookup : ∀ {i : Nat} {b : Block}, blocks[i]? = some b →
      (indexOf (blocks.map fun b => (b.header.powHash c, b.header))).lookup (b.header.powHash c)
        = some b.header :=
    fun hb => (lookup_indexOf hkeys).mpr (List.mem_map.mpr ⟨_, List.mem_of_getElem? hb, rfl⟩)
  -- by induction on the height, every block has the path of those before it
  have hpath : ∀ (i : Nat) (b : Block), blocks[i]? = some b →
      Forest.PathTo (linkOf (indexOf (blocks.map fun b => (b.header.powHash c, b.header)))
        (linkIndexOf c (blocks.map fun b => (b.header.powHash c, b.header))))
        (b.header.powHash c) ((blocks.take (i + 1)).map fun b => b.header.powHash c) := by
    intro i
    induction i with
    | zero =>
        intro b hb
        have hhead : blocks.head? = some b := by rw [List.head?_eq_getElem?]; exact hb
        rw [List.take_add_one, hb]
        exact .root (linkOf_root_iff.mpr ⟨_, hlookup hb, hroot b hhead⟩)
    | succ i ih =>
        intro b hb
        have hlt := (List.getElem?_eq_some_iff.mp hb).1
        obtain ⟨b', hb'⟩ : ∃ b', blocks[i]? = some b' := ⟨_, List.getElem?_eq_getElem (by omega)⟩
        have hprev : b.header.prevBlockHash = b'.header.hash c := by
          have h := List.isChain_iff_getElem.mp hlinked i (by omega)
          rw [List.getElem?_eq_some_iff] at hb hb'
          obtain ⟨-, rfl⟩ := hb
          obtain ⟨-, rfl⟩ := hb'
          exact h
        have hmem' : b'.header ∈ H := hmem b' (List.mem_of_getElem? hb')
        rw [List.take_add_one, hb, Option.toList_some, List.map_append]
        refine .child (linkOf_parent_iff.mpr ⟨_, hlookup hb, ?_, ?_⟩) (ih b' hb')
        · rw [hprev]
          exact hH.hash_ne_zero _ hmem'
        · rw [hprev]
          exact (lookup_linkIndexOf hH hkeys hentry).mpr
            ⟨b'.header, List.mem_map.mpr ⟨b', List.mem_of_getElem? hb', rfl⟩, rfl⟩
  refine
    { index := rfl
      headers := rfl
      nodup := hkeys
      entry := hentry
      path := ?_
      complete := ?_
      heightFiles := ?_
      hashFiles := fun hb => by cases hb }
  · have hpos := List.length_pos_iff.mpr hne
    have h := hpath (blocks.length - 1) _ (List.getElem?_eq_getElem (by omega))
    rw [Nat.sub_add_cancel hpos, List.take_length] at h
    exact ⟨_, h⟩
  · intro i id hi
    rw [List.getElem?_map] at hi
    obtain ⟨b, hb, -⟩ := Option.map_eq_some_iff.mp hi
    exact ⟨b, (DataDir.ofBlocks_load c blocks i).trans hb⟩
  · intro i b hb
    have hb' : blocks[i]? = some b := (DataDir.ofBlocks_load c blocks i).symm.trans hb
    refine ⟨hmem b (List.mem_of_getElem? hb'), fun id hid => ?_⟩
    rw [List.getElem?_map, hb'] at hid
    exact Option.some.inj hid

end

namespace Regtest

open Blockchain

/-- The headers of the blocks above. -/
def headers : List BlockHeader :=
  (Block.createGenesis crypto .regtest).header ::
    [a1, a2, a3, b1, b2, b3, b4, x2, y2, x3, f1, m1, w1, w2].map Block.header

abbrev H : Set BlockHeader := {hdr | hdr ∈ headers}

theorem collisionFree : CollisionFree crypto H :=
  .of_list (by decide +kernel) (by decide +kernel)

/-- The state after an empty directory was opened and blocks were delivered. -/
def after (blks : List Block) : Option Blockchain :=
  (openDir crypto .regtest env .empty).bind fun s =>
    acceptAll crypto .regtest env false 10 s blks

abbrev rules : Rules := .any crypto .regtest H

theorem allWritable : AllWritable env := fun _ => rfl

theorem canOpen_empty : CanOpen crypto .regtest H env .empty :=
  ⟨Or.inl ⟨rfl, List.mem_cons_self⟩, Or.inl rfl⟩

theorem writable_after {blks : List Block} (hmem : ∀ blk ∈ blks, blk.header ∈ headers)
    {s : Blockchain} (h : after blks = some s) :
    Reachable crypto .regtest H (.writable crypto .regtest H) s := by
  obtain ⟨t, hopen, hrun⟩ := Option.bind_eq_some_iff.mp h
  have hstart : Reachable crypto .regtest H (.writable crypto .regtest H) t :=
    .opened trivial (And.intro canOpen_empty.1 allWritable) hopen
  exact hstart.acceptAll (fun _ _ => allWritable) hmem hrun

theorem reachable_after {blks : List Block} (hmem : ∀ blk ∈ blks, blk.header ∈ headers)
    {s : Blockchain} (h : after blks = some s) : Reachable crypto .regtest H rules s :=
  (writable_after hmem h).any_of_writable

/-- The state after blocks were delivered, the process was started again and
more blocks were delivered. -/
def restarted (blks blks' : List Block) : Option Blockchain :=
  (after blks).bind fun s =>
    (openDir crypto .regtest env s.dataDir).bind fun t =>
      acceptAll crypto .regtest env false 10 t blks'

theorem writable_restarted {blks blks' : List Block} (hmem : ∀ blk ∈ blks, blk.header ∈ headers)
    (hmem' : ∀ blk ∈ blks', blk.header ∈ headers) {s : Blockchain}
    (h : restarted blks blks' = some s) :
    Reachable crypto .regtest H (.writable crypto .regtest H) s := by
  obtain ⟨t, hafter, hrest⟩ := Option.bind_eq_some_iff.mp h
  obtain ⟨u, hopen, hrun⟩ := Option.bind_eq_some_iff.mp hrest
  have ht := writable_after hmem hafter
  have hu : Reachable crypto .regtest H (.writable crypto .regtest H) u :=
    ht.reopened (And.intro (ht.bootable collisionFree) allWritable) hopen
  exact hu.acceptAll (fun _ _ => allWritable) hmem' hrun

theorem reachable_restarted {blks blks' : List Block} (hmem : ∀ blk ∈ blks, blk.header ∈ headers)
    (hmem' : ∀ blk ∈ blks', blk.header ∈ headers) {s : Blockchain}
    (h : restarted blks blks' = some s) : Reachable crypto .regtest H rules s :=
  (writable_restarted hmem hmem' h).any_of_writable

/-- The start of a chain, a block that extends it and one that is kept aside. -/
structure SideRun (s t u : Blockchain) : Prop where
  start : openDir crypto .regtest env .empty = some s
  loaded : (loadChain crypto .regtest env .empty).map (loadedLength crypto .regtest env) = some 1
  extend : acceptBlock crypto .regtest env false 10 s a1 = some (true, t)
  extendPass : passes crypto .regtest env false 10 s a1 = [(s, a1)]
  switched : (s.acceptOne crypto .regtest env false a1).1 = .switched
  aside : acceptBlock crypto .regtest env false 10 t b1 = some (true, u)
  asidePass : passes crypto .regtest env false 10 t b1 = [(t, b1)]
  side : (t.acceptOne crypto .regtest env false b1).1 = .sideBranch
  credited : u.chainWork.keys.card = 3

theorem sideRun : ∃ s t u, SideRun s t u := by
  have hrun : ((openDir crypto .regtest env .empty).bind fun s =>
      (acceptBlock crypto .regtest env false 10 s a1).bind fun x =>
        (acceptBlock crypto .regtest env false 10 x.2 b1).map fun y =>
          (((passes crypto .regtest env false 10 s a1).length,
              (s.acceptOne crypto .regtest env false a1).1, x.1),
            ((passes crypto .regtest env false 10 x.2 b1).length,
              (x.2.acceptOne crypto .regtest env false b1).1, y.1), y.2.chainWork.keys.card))
      = some ((1, .switched, true), (1, .sideBranch, true), 3) := by decide +kernel
  obtain ⟨s, hopen, hrest⟩ := Option.bind_eq_some_iff.mp hrun
  obtain ⟨⟨r, t⟩, hacc, hlast⟩ := Option.bind_eq_some_iff.mp hrest
  obtain ⟨⟨r', u⟩, hacc', heq⟩ := Option.map_eq_some_iff.mp hlast
  simp only [Prod.mk.injEq] at heq
  obtain ⟨⟨hlen, hv, rfl⟩, ⟨hlen', hv', rfl⟩, hcard⟩ := heq
  exact ⟨s, t, u, hopen, by decide +kernel, hacc, passes_single hlen hacc, hv, hacc',
    passes_single hlen' hacc', hv', hcard⟩

end Regtest

end Cryptex
