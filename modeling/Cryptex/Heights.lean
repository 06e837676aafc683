import Cryptex.Refusal
import Cryptex.RegtestRun

/-!
# The height index

`get_height_by_hash` should be the inverse of the height map. Recomputing the
maps gives a height to every connected header, so it is as long as the maps
are recomputed without a side branch among the known headers
(`Reachable.heightsExact`).
-/

namespace Cryptex

open Forest

namespace Blockchain

variable {c : Crypto} {p : ChainParams} {env : Env} {skip : Bool} {H : Set BlockHeader}
  {s s' : Blockchain} {blk : Block}

/-! ## Lookups by hash -/

/-- A hash stands for a known header when it is its block id or its link. -/
theorem canonicalBlockIdFor_iff (hH : CollisionFree c H) (hs : s.IndexOk c H) {x : Nat}
    {id : Hash512} : s.canonicalBlockIdFor x = some id ↔ ∃ hdr, s.index.lookup id = some hdr ∧
      (x = (hdr.powHash c).toNat ∨ x = (hdr.hash c).toNat) := by
  constructor
  · intro h
    unfold canonicalBlockIdFor at h
    split at h
    · next j hj =>
        cases h
        obtain ⟨hx, hknown⟩ := Option.filter_eq_some_iff.mp hj
        obtain ⟨hdr, hhdr⟩ := Option.isSome_iff_exists.mp hknown
        exact ⟨hdr, hhdr, Or.inl (by rw [hs.id_eq hhdr, toNat_of_asHash hx])⟩
    · obtain ⟨link, hx, hlink⟩ := Option.bind_eq_some_iff.mp h
      obtain ⟨hdr, hhdr, rfl⟩ := hs.link.mp hlink
      exact ⟨hdr, hhdr, Or.inr (toNat_of_asHash hx).symm⟩
  · rintro ⟨hdr, hhdr, rfl | rfl⟩
    · rw [hs.id_eq hhdr]
      exact canonicalBlockIdFor_id hhdr
    · unfold canonicalBlockIdFor
      split
      · next j hj =>
          -- a known id is larger than any link
          obtain ⟨hx, hknown⟩ := Option.filter_eq_some_iff.mp hj
          obtain ⟨hdr', hhdr'⟩ := Option.isSome_iff_exists.mp hknown
          have hle := le_toNat_powHash hH (hs.mem hhdr')
          rw [hs.id_eq hhdr', toNat_of_asHash hx] at hle
          exact absurd (hdr.hash c).isLt (Nat.not_lt.mpr hle)
      · rw [asHash_toNat]
        exact hs.link_self hhdr

/-! ## The property and its condition -/

/-- The active chain is a path whose end is described by the tip members, and
a hash has a height exactly when it is a hash of the active block there. -/
structure HeightsExact (c : Crypto) (s : Blockchain) : Prop where
  active : s.buildPathToGenesis s.tipHash = some s.heightMap
  best : s.bestHeight + 1 = s.heightMap.length
  tip : s.heightMap.getLast? = some s.tipHash
  tipBits : ∀ hdr, s.index.lookup s.tipHash = some hdr → s.tipBits = hdr.bits
  height : ∀ x k, s.getHeightByHash x = some k ↔ ∃ id hdr, s.heightMap[k]? = some id ∧
    s.index.lookup id = some hdr ∧ (x = (hdr.powHash c).toNat ∨ x = (hdr.hash c).toNat)

section

variable (c : Crypto) (p : ChainParams) (H : Set BlockHeader)

/-- When a block is refused, every connected id not behind it is active or a root. -/
def PassTidy (env : Env) (skip : Bool) (s : Blockchain) (blk : Block) : Prop :=
  ∀ path, s.Refuses c p env skip blk path → ∀ id l, s.PathTo id l → 1 < l.length →
    blk.header.powHash c ∉ l → id ∈ s.heightMap

/-- The connected ids of a stored chain, those behind its valid part aside,
are on the chain or roots. -/
def OpenTidy (env : Env) (dir : DataDir) : Prop :=
  ∀ s, loadChain c p env dir = some s → ∀ id l, s.PathTo id l → 1 < l.length →
    (loadedLength c p env s ≠ 0 → ∀ j ∈ l, j ∉ s.heightMap.drop (loadedLength c p env s)) →
    id ∈ s.heightMap

/-- Runs that recompute the maps only without a side branch. -/
def Rules.tidy : Rules where
  start := fun _ => True
  opens := fun env dir => CanOpen c p H env dir ∧ OpenTidy c p env dir
  pass := PassTidy c p

end

/-! ## The invariant -/

/-- Only active ids have a height. -/
def HeightsActive (s : Blockchain) : Prop :=
  ∀ id k, s.heightIndex.lookup id = some k → s.heightMap[k]? = some id

theorem heightsExact_iff (hH : CollisionFree c H) (hs : s.Coherent c p H) :
    s.HeightsExact c ↔ s.HeightsActive := by
  have hheight : ∀ {x k}, s.getHeightByHash x = some k ↔
      ∃ id, s.canonicalBlockIdFor x = some id ∧ s.heightIndex.lookup id = some k := by
    intro x k
    unfold getHeightByHash
    cases s.canonicalBlockIdFor x <;> simp
  constructor
  · intro h id k hk
    obtain ⟨l, w, hl, -, -⟩ := hs.heightIndex hk
    obtain ⟨hdr, hhdr⟩ := PathTo.lookup hl (Forest.PathTo.mem_self hl)
    obtain ⟨id', hdr', hmap, hhdr', hx⟩ := (h.height id.toNat k).mp
      (hheight.mpr ⟨id, canonicalBlockIdFor_id hhdr, hk⟩)
    have hid' : s.canonicalBlockIdFor id.toNat = some id' :=
      (canonicalBlockIdFor_iff hH hs.index).mpr ⟨hdr', hhdr', hx⟩
    rw [canonicalBlockIdFor_id hhdr] at hid'
    cases hid'
    exact hmap
  · intro h
    refine ⟨buildPathToGenesis_iff.mpr hs.active, hs.best, Forest.PathTo.getLast? hs.active,
      fun hdr hhdr => hs.tipBits hhdr, fun x k => ?_⟩
    rw [hheight]
    constructor
    · rintro ⟨id, hid, hk⟩
      obtain ⟨hdr, hhdr, hx⟩ := (canonicalBlockIdFor_iff hH hs.index).mp hid
      exact ⟨id, hdr, h id k hk, hhdr, hx⟩
    · rintro ⟨id, hdr, hmap, hhdr, hx⟩
      exact ⟨id, (canonicalBlockIdFor_iff hH hs.index).mpr ⟨hdr, hhdr, hx⟩, hs.activeHeight hmap⟩

/-- An id on the active chain is there at the position its path gives it. -/
theorem Coherent.active_at (hs : s.Coherent c p H) {id : Hash512} {l : List Hash512} {k : Nat}
    (hid : id ∈ s.heightMap) (hl : s.PathTo id l) (hlen : l.length = k + 1) :
    s.heightMap[k]? = some id := by
  obtain ⟨i, hi⟩ := List.mem_iff_getElem?.mp hid
  obtain ⟨-, hlen'⟩ := hs.active_position hi hl
  rw [show k = i by omega]
  exact hi

theorem HeightsActive.acceptOne (hH : CollisionFree c H) (hs : s.Coherent c p H)
    (hb : blk.header ∈ H) (h : s.HeightsActive) (hrule : PassTidy c p env skip s blk) :
    (s.acceptOne c p env skip blk).2.HeightsActive := by
  have hcoh : (s.cacheBlock c env blk).Coherent c p H := hs.cacheBlock hH hb
  have hout : Outcome c p env skip s blk (s.acceptOne c p env skip blk).1
      (s.acceptOne c p env skip blk).2 := acceptOne_outcome hH hs hb
  generalize s.acceptOne c p env skip blk = res at hout
  obtain ⟨v, s'⟩ := res
  simp only at hout ⊢
  cases hout with
  | rejected _ _ => exact h
  | processed _ _ => exact h
  | orphan _ _ _ _ => exact h
  | side _ _ _ _ => exact h
  | refused _ _ _ _ _ _ => exact h
  | failed _ hcand _ _ _ hact =>
      obtain ⟨-, store, rfl⟩ := hcoh.failed hcand.linked hact
      exact h
  | invalid hcheck hcand hinvalid =>
      have hleft := hcoh.refusal env hH hcand
      intro id k hk
      rw [hleft.only]
      show s.heightMap[k]? = some id
      rcases hleft.heightIndex.mp hk with hmap | ⟨l, hl, hroot, hlt, hlen⟩
      · exact hmap
      · have hold : s.PathTo id l := cacheBlock_pathTo_inv hH hs.index hb hl hroot
        exact hs.active_at (hrule _ ⟨hcheck, hcand, hinvalid⟩ id l hold hlt hroot) hold hlen
  | switched _ hcand hvalid _ hallowed hact =>
      obtain ⟨hcoh', blocks, store, files, cp, -, -, -, -, rfl, -⟩ :=
        hcoh.switch hH hcand (cacheBlock_pool_self s blk) hvalid hallowed.1 hact
      intro id k hk
      exact (lookup_insertAll_zipIdx (Forest.PathTo.nodup hcand.linked)).mp hk

theorem openDir_heightsActive (hH : CollisionFree c H) {dir : DataDir}
    (hdir : CanOpen c p H env dir) (hrule : OpenTidy c p env dir)
    (h : openDir c p env dir = some s) : s.HeightsActive := by
  have hcoh := openDir_coherent hH hdir h
  obtain ⟨t, hload, hpath⟩ := openDir_pathTo hH hdir h
  intro id k hk
  rcases (openDir_rebuilt hH hdir h).heightIndex.mp hk with hmap | ⟨l, hl, hlt, hlen⟩
  · exact hmap
  · obtain ⟨hl', hkept⟩ := hpath id l hl
    have hactive : id ∈ s.heightMap := openDir_active h hload (hrule t hload id l hl' hlt hkept)
      fun hne => hkept hne id (Forest.PathTo.mem_self hl)
    exact hcoh.active_at hactive hl hlen

theorem HeightsActive.operated (h : s.HeightsActive) (hs : s.Coherent c p H)
    (hop : Operated s s') : s'.HeightsActive := by
  obtain ⟨hframe, -⟩ := hop.frame hs
  rw [hframe.only]
  exact h

theorem Reachable.heightsActive (hH : CollisionFree c H)
    (h : Reachable c p H (Rules.tidy c p H) s) : s.Coherent c p H ∧ s.HeightsActive := by
  have hopen : ∀ env dir s, (Rules.tidy c p H).opens env dir → openDir c p env dir = some s →
      s.Coherent c p H ∧ s.HeightsActive := fun env dir s ho hs =>
    ⟨openDir_coherent hH ho.1 hs, openDir_heightsActive hH ho.1 ho.2 hs⟩
  refine h.invariant (I := fun t => t.Coherent c p H ∧ t.HeightsActive)
    (fun env dir s _ => hopen env dir s) ?_ ?_ ?_ (fun env t t' _ => hopen env t.dataDir t')
  · rintro env skip t blk ⟨ht, hheights⟩ hb hrule
    exact ⟨ht.acceptOne hH hb, hheights.acceptOne hH ht hb hrule⟩
  · rintro t id blk ⟨ht, -⟩ hb
    exact ht.pool_mem hb
  · rintro t t' ⟨ht, hheights⟩ hop
    exact ⟨ht.operated hop, hheights.operated ht hop⟩

/-- In a run that recomputes the maps only without a side branch, heights are
those of the active chain. -/
theorem Reachable.heightsExact (hH : CollisionFree c H)
    (h : Reachable c p H (Rules.tidy c p H) s) : s.HeightsExact c :=
  have hboth := h.heightsActive hH
  (heightsExact_iff hH hboth.1).mpr hboth.2

/-! ## A run with a side branch, and one that refuses a block beside it -/

/-- A call without orphans whose block is not refused meets the condition. -/
theorem Reachable.tidyPass (hH : CollisionFree c H) {fuel : Nat} {r : Bool}
    (h : Reachable c p H (Rules.tidy c p H) s) (hb : blk.header ∈ H)
    (hone : passes c p env skip fuel s blk = [(s, blk)])
    (hv : (s.acceptOne c p env skip blk).1 ≠ .candidateInvalid)
    (hacc : acceptBlock c p env skip fuel s blk = some (r, s')) :
    Reachable c p H (Rules.tidy c p H) s' := by
  have hcoh := (h.heightsActive hH).1
  refine h.delivered (.call env skip fuel blk r hb (fun x hx => ?_) hacc)
  rw [hone, List.mem_singleton] at hx
  subst hx
  intro path href
  have hout : Outcome c p env skip s blk (s.acceptOne c p env skip blk).1
      (s.acceptOne c p env skip blk).2 := acceptOne_outcome hH hcoh hb
  exact absurd ((hout.refused_iff hH hcoh.index hb).mpr ⟨path, href⟩) hv

/-- A new chain has one block, a root. -/
theorem openTidy_empty : OpenTidy c p env .empty := by
  obtain ⟨f, hload, hf⟩ := loadChain_empty c p env
  intro s hs id l hl hlt _
  rw [hload] at hs
  cases hs
  have hspec : Rebuilt p f (rebuildKnownBlockState p env f) := rebuild_spec hf.active
  rw [hf.pathTo_single hspec hl] at hlt
  exact absurd hlt (by simp)

open Regtest

theorem heightsExact_side : ∃ s,
    Reachable crypto .regtest Regtest.H (Rules.tidy crypto .regtest Regtest.H) s ∧
      s.chainWork.keys.card = 3 ∧ s.HeightsExact crypto := by
  obtain ⟨s, t, u, hrun⟩ := sideRun
  have hstart : Reachable crypto .regtest Regtest.H (Rules.tidy crypto .regtest Regtest.H) s :=
    .opened trivial ⟨canOpen_empty, openTidy_empty⟩ hrun.start
  have hfirst := hstart.tidyPass Regtest.collisionFree (by decide) hrun.extendPass
    (by rw [hrun.switched]; decide) hrun.extend
  have hsecond := hfirst.tidyPass Regtest.collisionFree (by decide) hrun.asidePass
    (by rw [hrun.side]; decide) hrun.aside
  exact ⟨u, hsecond, hrun.credited, Reachable.heightsExact Regtest.collisionFree hsecond⟩

/-- The refusal of `x2` gives `b1` the height of `a1`. -/
theorem not_heightsExact_refusal : ∃ s,
    Reachable crypto .regtest Regtest.H (Rules.any crypto .regtest Regtest.H) s ∧
      ¬ s.HeightsExact crypto := by
  have hrun : ((after [a1, b1, x2]).map fun s =>
      (s.heightIndex.lookup (b1.header.powHash crypto),
        decide (s.heightMap[1]? = some (b1.header.powHash crypto)))) = some (some 1, false) := by
    decide +kernel
  obtain ⟨s, hafter, heq⟩ := Option.map_eq_some_iff.mp hrun
  obtain ⟨hheight, hmap⟩ := Prod.mk.inj heq
  have hreach := reachable_after (by decide) hafter
  refine ⟨s, hreach, fun hexact => ?_⟩
  have hcoh := hreach.any_coherent Regtest.collisionFree
  exact of_decide_eq_false hmap
    ((heightsExact_iff Regtest.collisionFree hcoh).mp hexact _ _ hheight)

end Blockchain

end Cryptex
