import Cryptex.Blockchain
import Cryptex.Lib.Forest

/-!
# The tree of known headers

The header index and the link index make a forest: an id is a root when its
header names no predecessor, and otherwise hangs below the id its
predecessor link resolves to. `build_path_to_genesis` finds the paths of
this forest.

Ids and links are digests. `CollisionFree` is what the node relies on for
the headers it meets.
-/

namespace Cryptex

open Forest

/-- No two headers of the set share a link, and none hashes to the null link. -/
structure CollisionFree (c : Crypto) (H : Set BlockHeader) : Prop where
  hash_inj : Set.InjOn (BlockHeader.hash c) H
  hash_ne_zero : ∀ hdr ∈ H, hdr.hash c ≠ 0

theorem BlockHeader.hash_of_powHash {c : Crypto} {h₁ h₂ : BlockHeader}
    (h : h₁.powHash c = h₂.powHash c) : h₁.hash c = h₂.hash c := by
  rw [hash_eq_first, hash_eq_first, h]

theorem CollisionFree.eq_of_powHash {c : Crypto} {H : Set BlockHeader} (hH : CollisionFree c H)
    {h₁ h₂ : BlockHeader} (h₁H : h₁ ∈ H) (h₂H : h₂ ∈ H)
    (h : h₁.powHash c = h₂.powHash c) : h₁ = h₂ :=
  hH.hash_inj h₁H h₂H (BlockHeader.hash_of_powHash h)

/-! ## The forest of an index -/

/-- The place of an id in the forest of two index maps. -/
def linkOf (index : FinMap Hash512 BlockHeader) (linkIndex : FinMap Hash256 Hash512)
    (id : Hash512) : Link Hash512 :=
  match index.lookup id with
  | none => .missing
  | some hdr =>
      if hdr.prevBlockHash = 0 then .root
      else
        match linkIndex.lookup hdr.prevBlockHash with
        | none => .missing
        | some parent => .parent parent

theorem linkOf_root_iff {index : FinMap Hash512 BlockHeader} {linkIndex : FinMap Hash256 Hash512}
    {id : Hash512} : linkOf index linkIndex id = .root ↔
      ∃ hdr, index.lookup id = some hdr ∧ hdr.prevBlockHash = 0 := by
  unfold linkOf
  cases index.lookup id with
  | none => simp
  | some hdr =>
      by_cases hprev : hdr.prevBlockHash = 0
      · simp [hprev]
      · simp only [if_neg hprev, Option.some.injEq, exists_eq_left']
        constructor
        · intro h
          cases hl : linkIndex.lookup hdr.prevBlockHash <;> rw [hl] at h <;> cases h
        · intro h
          exact absurd h hprev

theorem linkOf_parent_iff {index : FinMap Hash512 BlockHeader}
    {linkIndex : FinMap Hash256 Hash512} {id parent : Hash512} :
    linkOf index linkIndex id = .parent parent ↔
      ∃ hdr, index.lookup id = some hdr ∧ hdr.prevBlockHash ≠ 0 ∧
        linkIndex.lookup hdr.prevBlockHash = some parent := by
  unfold linkOf
  cases index.lookup id with
  | none => simp
  | some hdr =>
      by_cases hprev : hdr.prevBlockHash = 0
      · simp [hprev]
      · simp only [if_neg hprev, Option.some.injEq, exists_eq_left']
        cases hl : linkIndex.lookup hdr.prevBlockHash with
        | none => simp
        | some q =>
            simp only [Link.parent.injEq, Option.some.injEq]
            exact ⟨fun h => ⟨hprev, h⟩, fun h => h.2⟩

theorem linkOf_missing_of_lookup_none {index : FinMap Hash512 BlockHeader}
    {linkIndex : FinMap Hash256 Hash512} {id : Hash512} (h : index.lookup id = none) :
    linkOf index linkIndex id = .missing := by
  unfold linkOf
  rw [h]

namespace Blockchain

/-- The place of an id among the known headers. -/
def up (s : Blockchain) : Hash512 → Link Hash512 := linkOf s.index s.linkIndex

/-- The path from genesis to a known id. -/
abbrev PathTo (s : Blockchain) : Hash512 → List Hash512 → Prop := Forest.PathTo s.up

/-- The id has all its ancestors back to genesis. -/
abbrev Connected (s : Blockchain) : Hash512 → Prop := Forest.Connected s.up

theorem buildPathLoop_eq_climb (s : Blockchain) (fuel : Nat) (out : List Hash512)
    (cursor : Hash512) : s.buildPathLoop fuel out cursor = climb s.up fuel out cursor := by
  induction fuel generalizing out cursor with
  | zero => rfl
  | succ fuel ih =>
      rw [buildPathLoop, climb]
      split
      · rfl
      · unfold up linkOf
        cases s.index.lookup cursor with
        | none => rfl
        | some hdr =>
            by_cases hprev : hdr.prevBlockHash = 0
            · simp only [if_pos hprev]
            · simp only [if_neg hprev]
              cases s.linkIndex.lookup hdr.prevBlockHash with
              | none => rfl
              | some parent => exact ih _ _

/-- `build_path_to_genesis` finds the path of an id exactly when it has one. -/
theorem buildPathToGenesis_iff {s : Blockchain} {id : Hash512} {path : List Hash512} :
    s.buildPathToGenesis id = some path ↔ s.PathTo id path := by
  have hnodes : ∀ j, s.up j ≠ .missing → j ∈ s.index.keys := by
    intro j hj
    rw [Finmap.mem_keys, ← Finmap.lookup_isSome, ← Option.ne_none_iff_isSome]
    intro hnone
    exact hj (linkOf_missing_of_lookup_none hnone)
  rw [buildPathToGenesis, buildPathLoop_eq_climb]
  exact climb_iff hnodes (Nat.le_succ _)

theorem PathTo.lookup {s : Blockchain} {id j : Hash512} {path : List Hash512}
    (h : s.PathTo id path) (hj : j ∈ path) : ∃ hdr, s.index.lookup j = some hdr := by
  cases hl : s.index.lookup j with
  | some hdr => exact ⟨hdr, rfl⟩
  | none => exact absurd (linkOf_missing_of_lookup_none hl) (h.ne_missing hj)

theorem PathTo.length_le_card {s : Blockchain} {id : Hash512} {path : List Hash512}
    (h : s.PathTo id path) : path.length ≤ s.index.keys.card := by
  rw [← List.toFinset_card_of_nodup (Forest.PathTo.nodup h)]
  refine Finset.card_le_card fun j hj => ?_
  obtain ⟨hdr, hhdr⟩ := PathTo.lookup h (List.mem_toFinset.mp hj)
  exact Finmap.mem_keys.mpr (Finmap.mem_of_lookup_eq_some hhdr)

/-! ## Work along a path -/

/-- The work of the header of an id. -/
def headerWork (p : ChainParams) (s : Blockchain) (id : Hash512) : Nat :=
  ((s.index.lookup id).map fun hdr => blockWork p hdr.bits).getD 0

/-- The cumulative work of a path of ids. -/
def pathWork (p : ChainParams) (s : Blockchain) (path : List Hash512) : Nat :=
  (path.map (s.headerWork p)).sum

theorem pathWork_append (p : ChainParams) (s : Blockchain) (l l' : List Hash512) :
    s.pathWork p (l ++ l') = s.pathWork p l + s.pathWork p l' := by
  rw [pathWork, List.map_append, List.sum_append]
  rfl

theorem headerWork_of_lookup {p : ChainParams} {s : Blockchain} {id : Hash512} {hdr : BlockHeader}
    (h : s.index.lookup id = some hdr) : s.headerWork p id = blockWork p hdr.bits := by
  rw [headerWork, h]
  rfl

theorem pathWork_congr {p : ChainParams} {s s' : Blockchain} {l : List Hash512}
    (h : ∀ id ∈ l, s'.index.lookup id = s.index.lookup id) : s'.pathWork p l = s.pathWork p l := by
  refine congrArg List.sum (List.map_congr_left fun id hid => ?_)
  rw [headerWork, headerWork, h id hid]

/-! ## What the index maps hold -/

/-- The index maps describe headers of `H` under their own hashes, the link
index is the inverse of the index, and the pool holds known blocks. -/
structure IndexOk (c : Crypto) (H : Set BlockHeader) (s : Blockchain) : Prop where
  id_eq : ∀ {id hdr}, s.index.lookup id = some hdr → hdr.powHash c = id
  mem : ∀ {id hdr}, s.index.lookup id = some hdr → hdr ∈ H
  link : ∀ {link id}, s.linkIndex.lookup link = some id ↔
    ∃ hdr, s.index.lookup id = some hdr ∧ hdr.hash c = link
  pool : ∀ {id blk}, s.blockPool.lookup id = some blk → s.index.lookup id = some blk.header

theorem IndexOk.link_self {c : Crypto} {H : Set BlockHeader} {s : Blockchain}
    (h : s.IndexOk c H) {id : Hash512} {hdr : BlockHeader} (hid : s.index.lookup id = some hdr) :
    s.linkIndex.lookup (hdr.hash c) = some id :=
  h.link.mpr ⟨hdr, hid, rfl⟩

/-- A known id is not the value of a link, whose leading half is missing. -/
theorem le_toNat_powHash {c : Crypto} {H : Set BlockHeader} (hH : CollisionFree c H)
    {hdr : BlockHeader} (hmem : hdr ∈ H) : 2 ^ 256 ≤ (hdr.powHash c).toNat := by
  by_contra hlt
  refine hH.hash_ne_zero hdr hmem ?_
  rw [BlockHeader.hash_eq_first]
  exact Hash512.first_eq_zero (Nat.lt_of_not_le hlt)

/-- The parent of a known id is the known header whose link it names. -/
theorem IndexOk.up_parent_iff {c : Crypto} {H : Set BlockHeader} {s : Blockchain}
    (h : s.IndexOk c H) {id parent : Hash512} : s.up id = .parent parent ↔
      ∃ hdr phdr, s.index.lookup id = some hdr ∧ hdr.prevBlockHash ≠ 0 ∧
        s.index.lookup parent = some phdr ∧ phdr.hash c = hdr.prevBlockHash := by
  rw [up, linkOf_parent_iff]
  constructor
  · rintro ⟨hdr, hid, hprev, hlink⟩
    obtain ⟨phdr, hphdr, hhash⟩ := h.link.mp hlink
    exact ⟨hdr, phdr, hid, hprev, hphdr, hhash⟩
  · rintro ⟨hdr, phdr, hid, hprev, hphdr, hhash⟩
    exact ⟨hdr, hid, hprev, h.link.mpr ⟨phdr, hphdr, hhash⟩⟩

/-- A path stays a path wherever its ids keep their headers. -/
theorem IndexOk.pathTo {c : Crypto} {H : Set BlockHeader} {s s' : Blockchain}
    (h : s.IndexOk c H) (h' : s'.IndexOk c H) {id : Hash512} {l : List Hash512}
    (hl : s.PathTo id l)
    (hkeep : ∀ j ∈ l, ∀ hdr, s.index.lookup j = some hdr → s'.index.lookup j = some hdr) :
    s'.PathTo id l := by
  induction hl with
  | root hid =>
      obtain ⟨hdr, hhdr, hprev⟩ := linkOf_root_iff.mp hid
      exact .root (linkOf_root_iff.mpr ⟨hdr, hkeep _ (by simp) hdr hhdr, hprev⟩)
  | @child k j l hid hj ih =>
      obtain ⟨hdr, phdr, hhdr, hprev, hphdr, hhash⟩ := h.up_parent_iff.mp hid
      refine .child (h'.up_parent_iff.mpr ⟨hdr, phdr, ?_, hprev, ?_, hhash⟩) (ih fun i hi => ?_)
      · exact hkeep k (by simp) hdr hhdr
      · exact hkeep j (List.mem_append_left _ hj.mem_self) phdr hphdr
      · exact hkeep i (List.mem_append_left _ hi)

/-- The path of an id is the same in every state that knows it. -/
theorem IndexOk.pathTo_unique {c : Crypto} {H : Set BlockHeader} (hH : CollisionFree c H)
    {s s' : Blockchain} (h : s.IndexOk c H) (h' : s'.IndexOk c H) {id : Hash512}
    {l l' : List Hash512} (hl : s.PathTo id l) (hl' : s'.PathTo id l') : l = l' := by
  have hsame : ∀ {j hdr hdr'}, s.index.lookup j = some hdr → s'.index.lookup j = some hdr' →
      hdr = hdr' := by
    intro j hdr hdr' hj hj'
    exact hH.eq_of_powHash (h.mem hj) (h'.mem hj') ((h.id_eq hj).trans (h'.id_eq hj').symm)
  induction hl generalizing l' with
  | root hid =>
      obtain ⟨hdr, hhdr, hprev⟩ := linkOf_root_iff.mp hid
      cases hl' with
      | root _ => rfl
      | child hid' _ =>
          obtain ⟨hdr', hhdr', hprev', -⟩ := linkOf_parent_iff.mp hid'
          rw [hsame hhdr hhdr'] at hprev
          exact absurd hprev hprev'
  | child hid _ ih =>
      obtain ⟨hdr, phdr, hhdr, hprev, hphdr, hhash⟩ := h.up_parent_iff.mp hid
      cases hl' with
      | root hid' =>
          obtain ⟨hdr', hhdr', hprev'⟩ := linkOf_root_iff.mp hid'
          rw [hsame hhdr hhdr'] at hprev
          exact absurd hprev' hprev
      | child hid' hj' =>
          obtain ⟨hdr', phdr', hhdr', -, hphdr', hhash'⟩ := h'.up_parent_iff.mp hid'
          have hheq : phdr = phdr' := by
            refine hH.hash_inj (h.mem hphdr) (h'.mem hphdr') ?_
            rw [hhash, hhash', hsame hhdr hhdr']
          have hjeq : _ = _ := (h.id_eq hphdr).symm.trans (hheq ▸ h'.id_eq hphdr')
          subst hjeq
          rw [ih hj']

/-- Erasing an id together with its link leaves the maps in order. -/
theorem IndexOk.erase {c : Crypto} {H : Set BlockHeader} (hH : CollisionFree c H)
    {s s' : Blockchain} (h : s.IndexOk c H) {id : Hash512}
    (hindex : s'.index = s.index.erase id)
    (hlink : s'.linkIndex = match s.index.lookup id with
      | none => s.linkIndex
      | some hdr => s.linkIndex.erase (hdr.hash c))
    (hpool : s'.blockPool = s.blockPool.erase id) : s'.IndexOk c H := by
  have hsub : ∀ {j hdr}, s'.index.lookup j = some hdr ↔
      j ≠ id ∧ s.index.lookup j = some hdr := by
    intro j hdr
    rw [hindex, FinMap.lookup_erase_ite]
    split
    · next heq => simp [heq]
    · next hne => simp [hne]
  constructor
  · intro j hdr hj
    exact h.id_eq (hsub.mp hj).2
  · intro j hdr hj
    exact h.mem (hsub.mp hj).2
  · intro link j
    rw [hlink]
    cases hid : s.index.lookup id with
    | none =>
        simp only
        rw [h.link]
        constructor
        · rintro ⟨hdr, hj, hhash⟩
          refine ⟨hdr, hsub.mpr ⟨?_, hj⟩, hhash⟩
          rintro rfl
          rw [hid] at hj
          cases hj
        · rintro ⟨hdr, hj, hhash⟩
          exact ⟨hdr, (hsub.mp hj).2, hhash⟩
    | some ihdr =>
        simp only
        rw [FinMap.lookup_erase_ite]
        split
        · next heq =>
            constructor
            · intro hfalse; cases hfalse
            · rintro ⟨hdr, hj, hhash⟩
              obtain ⟨hne, hj⟩ := hsub.mp hj
              refine absurd ?_ hne
              rw [← h.id_eq hj, ← h.id_eq hid,
                hH.hash_inj (h.mem hj) (h.mem hid) (hhash.trans heq)]
        · next hlne =>
            rw [h.link]
            constructor
            · rintro ⟨hdr, hj, hhash⟩
              refine ⟨hdr, hsub.mpr ⟨?_, hj⟩, hhash⟩
              rintro rfl
              rw [hid] at hj
              cases hj
              exact hlne hhash.symm
            · rintro ⟨hdr, hj, hhash⟩
              exact ⟨hdr, (hsub.mp hj).2, hhash⟩
  · intro j b hb
    rw [hpool, FinMap.lookup_erase_ite] at hb
    split at hb
    · cases hb
    · next hne => exact hsub.mpr ⟨hne, h.pool hb⟩

/-- The index maps depend on nothing else of the state. -/
theorem IndexOk.congr {c : Crypto} {H : Set BlockHeader} {s s' : Blockchain} (h : s.IndexOk c H)
    (hindex : s'.index = s.index) (hlink : s'.linkIndex = s.linkIndex)
    (hpool : s'.blockPool = s.blockPool) : s'.IndexOk c H := by
  constructor
  · rw [hindex]; exact h.id_eq
  · rw [hindex]; exact h.mem
  · rw [hindex, hlink]; exact h.link
  · rw [hindex, hpool]; exact h.pool

theorem up_congr {s s' : Blockchain} (hindex : s'.index = s.index)
    (hlink : s'.linkIndex = s.linkIndex) : s'.up = s.up := by
  rw [up, up, hindex, hlink]

end Blockchain

end Cryptex
