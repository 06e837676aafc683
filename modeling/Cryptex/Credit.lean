import Cryptex.Refusal
import Cryptex.RegtestRun

/-!
# Which blocks get work

`accept_block` takes an entry of `chain_work_` for a block that was
validated. A run is recorded together with the paths that
`validated_prefix_length` accepted on the way, by passes and at openings;
`Credited` says that whatever has work lies on one of them. Recomputing the
maps gives work to every connected header, so this needs that the connected
headers were accepted before (`recorded_credited`).
-/

namespace Cryptex

open Forest

namespace Blockchain

/-! ## What was accepted -/

/-- The verdicts of the passes that validate the path of their block. -/
def Verdict.validates : Verdict → Bool
  | .candidateInvalid | .checkpointMismatch | .deepReorg | .activationFailed | .switched
  | .sideBranch => true
  | _ => false

section

variable (c : Crypto) (p : ChainParams) (env : Env) (skip : Bool)

/-- The ids that a pass finds valid: the accepted part of the path to its block. -/
def acceptedBy (s : Blockchain) (blk : Block) : List Hash512 :=
  if (s.acceptOne c p env skip blk).1.validates then
    match (s.cacheBlock c env blk).buildPathToGenesis (blk.header.powHash c) with
    | none => []
    | some path =>
        path.take ((s.cacheBlock c env blk).validatedPrefixLength c p env skip path).length
  else []

/-- The ids that the constructor finds valid. -/
def acceptedAtOpen (dir : DataDir) : List Hash512 :=
  match loadChain c p env dir with
  | none => []
  | some s => s.heightMap.take (loadedLength c p env s)

end

/-- The paths accepted so far, each with all its prefixes. -/
abbrev Accepted := List (List Hash512)

/-- The path was accepted in full. -/
def Accepted.Has (V : Accepted) (path : List Hash512) : Prop := ∃ l ∈ V, path <+: l

theorem Accepted.Has.mono {V : Accepted} {path : List Hash512} (h : V.Has path) (V' : Accepted) :
    Accepted.Has (V ++ V') path := by
  obtain ⟨l, hl, hpre⟩ := h
  exact ⟨l, List.mem_append_left _ hl, hpre⟩

theorem Accepted.has_last (V : Accepted) {path l : List Hash512} (h : path <+: l) :
    Accepted.Has (V ++ [l]) path := ⟨l, by simp, h⟩

/-! ## Recorded runs -/

/-- Conditions that may refer to what was accepted before. -/
structure HistoryRules where
  start : DataDir → Prop
  opens : Accepted → Env → DataDir → Prop
  pass : Accepted → Env → Bool → Blockchain → Block → Prop

/-- The states of all runs, each with the paths accepted on the way. -/
inductive Recorded (c : Crypto) (p : ChainParams) (H : Set BlockHeader) (R : HistoryRules) :
    Accepted → Blockchain → Prop where
  | opened {env dir s} : R.start dir → R.opens [] env dir → openDir c p env dir = some s →
      Recorded c p H R [acceptedAtOpen c p env dir] s
  | delivered {V s s' env skip fuel blk r} : Recorded c p H R V s → blk.header ∈ H →
      (∀ pre x post, passes c p env skip fuel s blk = pre ++ x :: post →
        R.pass (V ++ pre.map fun y => acceptedBy c p env skip y.1 y.2) env skip x.1 x.2) →
      acceptBlock c p env skip fuel s blk = some (r, s') →
      Recorded c p H R
        (V ++ (passes c p env skip fuel s blk).map fun y => acceptedBy c p env skip y.1 y.2) s'
  | operated {V s s'} : Recorded c p H R V s → Operated s s' → Recorded c p H R V s'
  | reopened {V env s s'} : Recorded c p H R V s → R.opens V env s.dataDir →
      openDir c p env s.dataDir = some s' →
      Recorded c p H R (V ++ [acceptedAtOpen c p env s.dataDir]) s'

section

variable (c : Crypto) (p : ChainParams) (H : Set BlockHeader)

/-- Every id with work has a complete path that was accepted in full, and its
work is that of the path. -/
def Credited (V : Accepted) (s : Blockchain) : Prop :=
  ∀ id w, s.chainWork.lookup id = some w →
    ∃ path, s.buildPathToGenesis id = some path ∧ V.Has path ∧ w = s.pathWork p path

/-- When a block is refused, the other connected ids that have no work were
accepted before. -/
def PassEarned (V : Accepted) (env : Env) (skip : Bool) (s : Blockchain) (blk : Block) : Prop :=
  ∀ path, s.Refuses c p env skip blk path → ∀ id l, s.PathTo id l →
    blk.header.powHash c ∉ l → s.chainWork.lookup id = none → V.Has l

/-- The connected ids of a stored chain, those behind its valid part aside,
are on the valid part or were accepted before. -/
def OpenEarned (V : Accepted) (env : Env) (dir : DataDir) : Prop :=
  ∀ s, loadChain c p env dir = some s → ∀ id l, s.PathTo id l →
    (loadedLength c p env s ≠ 0 → ∀ j ∈ l, j ∉ s.heightMap.drop (loadedLength c p env s)) →
    l <+: s.heightMap.take (loadedLength c p env s) ∨ V.Has l

/-- Runs that recompute the maps only when every connected id has earned its work. -/
def HistoryRules.earned : HistoryRules where
  start := fun _ => True
  opens := fun V env dir => CanOpen c p H env dir ∧ OpenEarned c p V env dir
  pass := PassEarned c p

/-- Runs without conditions other than that a directory can be opened. -/
def HistoryRules.any : HistoryRules where
  start := fun _ => True
  opens := fun _ => CanOpen c p H
  pass := fun _ _ _ _ _ => True

end

variable {c : Crypto} {p : ChainParams} {env : Env} {skip : Bool} {H : Set BlockHeader}
  {s s' : Blockchain} {blk : Block} {V : Accepted}

/-! ## Passes -/

/-- What has work was accepted; the work itself is a matter of coherence. -/
def Earned (V : Accepted) (s : Blockchain) : Prop :=
  ∀ id w l, s.chainWork.lookup id = some w → s.PathTo id l → V.Has l

theorem Earned.credited (h : s.Earned V) (hs : s.Coherent c p H) : s.Credited p V := by
  intro id w hw
  obtain ⟨l, hl, hwork, -⟩ := hs.work hw
  exact ⟨l, buildPathToGenesis_iff.mpr hl, h id w l hw hl, hwork⟩

theorem Earned.mono (h : s.Earned V) (V' : Accepted) : s.Earned (V ++ V') :=
  fun id w l hw hl => (h id w l hw hl).mono V'

/-- Neither more work nor other paths for what has it. -/
theorem Earned.sub (h : s.Earned V) (hs : s.Coherent c p H)
    (hwork : ∀ {id w}, s'.chainWork.lookup id = some w → s.chainWork.lookup id = some w)
    (hpath : ∀ {id l}, s.PathTo id l → s'.PathTo id l) : s'.Earned V := by
  intro id w l hw hl
  obtain ⟨l', hl', -, -⟩ := hs.work (hwork hw)
  rw [hl.unique (hpath hl')]
  exact h id w l' (hwork hw) hl'

theorem Earned.cacheBlock (h : s.Earned V) (env : Env) (hH : CollisionFree c H)
    (hs : s.Coherent c p H) (hb : blk.header ∈ H) : (s.cacheBlock c env blk).Earned V := by
  refine h.sub hs ?_ fun hl => cacheBlock_pathTo hH hs.index hb hl
  exact fun hw => hw

theorem acceptedBy_eq {path : List Hash512}
    (hv : (s.acceptOne c p env skip blk).1.validates = true)
    (hlinked : (s.cacheBlock c env blk).PathTo (blk.header.powHash c) path)
    (hvalid : (s.cacheBlock c env blk).PathValid c p env skip path) :
    acceptedBy c p env skip s blk = path := by
  have hlen : ((s.cacheBlock c env blk).validatedPrefixLength c p env skip path).length
      = path.length := hvalid
  rw [acceptedBy, if_pos hv, buildPathToGenesis_iff.mpr hlinked]
  simp only
  rw [hlen, List.take_length]

/-- The work that a refusal hands out has been earned. -/
theorem Refusal.earned {s₁ : Blockchain} (hH : CollisionFree c H) (hs : s.Coherent c p H)
    (hb : blk.header ∈ H) (hs₁ : s₁ = s.cacheBlock c env blk)
    (h : Refusal c p H s₁ (blk.header.powHash c) s') (he : s.Earned V)
    (hrule : ∀ id l, s.PathTo id l → blk.header.powHash c ∉ l →
      s.chainWork.lookup id = none → V.Has l) : s'.Earned V := by
  intro id w l _ hl
  obtain ⟨hl₁, hroot⟩ := h.pathTo.mp hl
  rw [hs₁] at hl₁
  have hold : s.PathTo id l := cacheBlock_pathTo_inv hH hs.index hb hl₁ hroot
  cases hw : s.chainWork.lookup id with
  | none => exact hrule id l hold hroot hw
  | some w' => exact he id w' l hw hold

/-- A pass that meets the condition gives work only to what was accepted. -/
theorem Earned.acceptOne (hH : CollisionFree c H) (hs : s.Coherent c p H) (hb : blk.header ∈ H)
    (he : s.Earned V) (hrule : PassEarned c p V env skip s blk) :
    (s.acceptOne c p env skip blk).2.Earned (V ++ [acceptedBy c p env skip s blk]) := by
  have hcoh : (s.cacheBlock c env blk).Coherent c p H := hs.cacheBlock hH hb
  have hcached : (s.cacheBlock c env blk).Earned (V ++ [acceptedBy c p env skip s blk]) :=
    (he.cacheBlock env hH hs hb).mono _
  have hout : Outcome c p env skip s blk (s.acceptOne c p env skip blk).1
      (s.acceptOne c p env skip blk).2 := acceptOne_outcome hH hs hb
  have haccepted : ∀ {path}, (s.acceptOne c p env skip blk).1.validates = true →
      Candidate c (s.cacheBlock c env blk) blk path →
      (s.cacheBlock c env blk).PathValid c p env skip path →
      acceptedBy c p env skip s blk = path :=
    fun hv hcand hvalid => acceptedBy_eq hv hcand.linked hvalid
  generalize acceptedBy c p env skip s blk = l₀ at hcached haccepted ⊢
  generalize s.acceptOne c p env skip blk = res at hout haccepted
  obtain ⟨v, s'⟩ := res
  simp only at hout haccepted ⊢
  cases hout with
  | rejected _ _ => exact he.mono _
  | processed _ _ => exact hcached
  | orphan _ _ _ _ => exact hcached
  | refused _ _ _ _ _ _ => exact hcached
  | failed _ hcand _ _ _ hact =>
      obtain ⟨-, store, rfl⟩ := hcoh.failed hcand.linked hact
      exact hcached
  | invalid hcheck hcand hinvalid =>
      have hleft := hcoh.refusal env hH hcand
      exact (hleft.earned hH hs hb rfl he
        (hrule _ ⟨hcheck, hcand, hinvalid⟩)).mono [l₀]
  | side _ hcand hvalid _ =>
      intro id w l hw hl
      rw [Blockchain.keepAside] at hw
      simp only [FinMap.lookup_insert_ite] at hw
      split at hw
      · next heq =>
          subst heq
          have hl' : (s.cacheBlock c env blk).PathTo (blk.header.powHash c) l := hl
          rw [hl'.unique hcand.linked, haccepted rfl hcand hvalid]
          exact V.has_last (List.prefix_refl _)
      · exact hcached id w l hw hl
  | @switched path _ _ hcand hvalid _ hallowed hact =>
      obtain ⟨hcoh', blocks, store, files, cp, hblocks, -, -, -, rfl, -⟩ :=
        hcoh.switch hH hcand (cacheBlock_pool_self s blk) hvalid hallowed.1 hact
      intro id w l hw hl
      have hmem : id ∈ path := by
        have hw' : (FinMap.insertAll ∅ (workAlong p 0 (path.zip blocks))).lookup id = some w := hw
        rcases FinMap.mem_of_lookup_insertAll hw' with hmem | hnone
        · rw [← map_fst_workAlong (p := p) 0 hblocks.length_eq]
          exact List.mem_map_of_mem hmem
        · rw [Finmap.lookup_empty] at hnone
          cases hnone
      obtain ⟨i, hi⟩ := List.mem_iff_getElem?.mp hmem
      obtain ⟨heq, -⟩ := hcoh'.active_position hi hl
      rw [heq, haccepted rfl hcand hvalid]
      exact V.has_last (List.take_prefix _ _)

/-! ## Openings -/

/-- An opening that meets the condition gives work only to what was accepted. -/
theorem openDir_earned (hH : CollisionFree c H) {dir : DataDir} (hdir : CanOpen c p H env dir)
    (hrule : OpenEarned c p V env dir) (h : openDir c p env dir = some s) :
    s.Earned (V ++ [acceptedAtOpen c p env dir]) := by
  obtain ⟨t, hload, hpath⟩ := openDir_pathTo hH hdir h
  intro id w l _ hl
  obtain ⟨hl', hkept⟩ := hpath id l hl
  have haccepted : acceptedAtOpen c p env dir
      = t.heightMap.take (loadedLength c p env t) := by
    rw [acceptedAtOpen, hload]
  rw [haccepted]
  rcases hrule t hload id l hl' hkept with hpre | hold
  · exact V.has_last hpre
  · exact hold.mono _

/-! ## Runs -/

theorem Earned.operated (he : s.Earned V) (hs : s.Coherent c p H) (h : Operated s s') :
    s'.Earned V := by
  obtain ⟨hframe, -⟩ := h.frame hs
  rw [hframe.only]
  exact he

theorem Recorded.earned (hH : CollisionFree c H)
    (h : Recorded c p H (.earned c p H) V s) : s.Coherent c p H ∧ s.Earned V := by
  induction h with
  | opened _ hopens hs =>
      exact ⟨openDir_coherent hH hopens.1 hs, openDir_earned hH hopens.1 hopens.2 hs⟩
  | @delivered V s s' env skip fuel blk r _ hb hok hacc ih =>
      exact acceptBlock_history (acceptedBy c p env skip)
        (I := fun V t => t.Coherent c p H ∧ t.Earned V) (G := fun b => b.header ∈ H)
        (Q := fun V t b => PassEarned c p V env skip t b)
        (fun V t b ht hb hrule => ⟨ht.1.acceptOne hH hb, ht.2.acceptOne hH ht.1 hb hrule⟩)
        (fun V t id b ht hb => ht.1.pool_mem hb) ih hb hok hacc
  | operated _ hop ih => exact ⟨ih.1.operated hop, ih.2.operated ih.1 hop⟩
  | reopened _ hopens hs _ =>
      exact ⟨openDir_coherent hH hopens.1 hs, openDir_earned hH hopens.1 hopens.2 hs⟩

/-- In a run that recomputes the maps only when every connected id has earned
its work, whatever has work was accepted in full. -/
theorem recorded_credited (hH : CollisionFree c H)
    (h : Recorded c p H (.earned c p H) V s) : s.Credited p V :=
  have hboth := h.earned hH
  hboth.2.credited hboth.1

/-! ## Two recorded runs -/

/-- `accept_block` for every block of a list, with the paths accepted so far. -/
def acceptRecorded (c : Crypto) (p : ChainParams) (env : Env) (skip : Bool) (fuel : Nat) :
    Accepted → Blockchain → List Block → Option (Accepted × Blockchain)
  | V, s, [] => some (V, s)
  | V, s, blk :: blks =>
      (acceptBlock c p env skip fuel s blk).bind fun res =>
        acceptRecorded c p env skip fuel
          (V ++ (passes c p env skip fuel s blk).map fun y => acceptedBy c p env skip y.1 y.2)
          res.2 blks

/-- A run that meets its conditions may go on with any blocks. -/
theorem Recorded.acceptRecorded {R : HistoryRules}
    (hpass : ∀ V env skip s blk, R.pass V env skip s blk) {fuel : Nat} :
    ∀ {blks : List Block} {V V' : Accepted} {s s' : Blockchain}, Recorded c p H R V s →
      (∀ blk ∈ blks, blk.header ∈ H) →
      Blockchain.acceptRecorded c p env skip fuel V s blks = some (V', s') →
      Recorded c p H R V' s'
  | [], _, _, _, _, h, _, hrun => by
      cases hrun
      exact h
  | blk :: blks, V, V', s, s', h, hmem, hrun => by
      obtain ⟨⟨r, t⟩, hacc, hrest⟩ := Option.bind_eq_some_iff.mp hrun
      exact (h.delivered (hmem blk List.mem_cons_self) (fun _ _ _ _ => hpass _ _ _ _ _)
        hacc).acceptRecorded hpass (fun b hb => hmem b (List.mem_cons_of_mem _ hb)) hrest

/-- A call without orphans whose block is not refused meets the condition. -/
theorem Recorded.pass (hH : CollisionFree c H) {fuel : Nat} {r : Bool}
    (h : Recorded c p H (.earned c p H) V s) (hb : blk.header ∈ H)
    (hone : passes c p env skip fuel s blk = [(s, blk)])
    (hv : (s.acceptOne c p env skip blk).1 ≠ .candidateInvalid)
    (hacc : acceptBlock c p env skip fuel s blk = some (r, s')) :
    Recorded c p H (.earned c p H)
      (V ++ (passes c p env skip fuel s blk).map fun y => acceptedBy c p env skip y.1 y.2) s' := by
  have hcoh := (h.earned hH).1
  refine h.delivered hb (fun pre x post heq => ?_) hacc
  have hx : x = (s, blk) := by
    have hmem : x ∈ passes c p env skip fuel s blk := by rw [heq]; simp
    rw [hone, List.mem_singleton] at hmem
    exact hmem
  subst hx
  intro path href
  have hout : Outcome c p env skip s blk (s.acceptOne c p env skip blk).1
      (s.acceptOne c p env skip blk).2 := acceptOne_outcome hH hcoh hb
  exact absurd ((hout.refused_iff hH hcoh.index hb).mpr ⟨path, href⟩) hv

/-- A new chain has earned its work when the constructor accepts its genesis. -/
theorem openEarned_empty (hone : (loadChain c p env .empty).map (loadedLength c p env) = some 1) :
    OpenEarned c p V env .empty := by
  obtain ⟨f, hload, hf⟩ := loadChain_empty c p env
  intro s hs id l hl _
  rw [hload] at hs hone
  cases hs
  rw [Option.map_some, Option.some.injEq] at hone
  have hspec : Rebuilt p f (rebuildKnownBlockState p env f) := rebuild_spec hf.active
  left
  rw [hf.pathTo_single hspec hl, hone,
    show (rebuildKnownBlockState p env f).heightMap = f.heightMap by rw [hspec.only], hf.heightMap]
  exact List.prefix_refl _

instance (V : Accepted) (path : List Hash512) : Decidable (V.Has path) :=
  inferInstanceAs (Decidable (∃ l ∈ V, path <+: l))

open Regtest

/-- The state after an empty directory was opened and blocks were delivered,
with the paths accepted on the way. -/
def recorded (blks : List Block) : Option (Accepted × Blockchain) :=
  (openDir crypto .regtest Regtest.env .empty).bind fun s =>
    acceptRecorded crypto .regtest Regtest.env false 10
      [acceptedAtOpen crypto .regtest Regtest.env .empty] s blks

/-- A block of the main branch and one of a side branch. -/
theorem recorded_credited_side : ∃ V s,
    Recorded crypto .regtest Regtest.H (.earned crypto .regtest Regtest.H) V s ∧
      s.chainWork.keys.card = 3 ∧ s.Credited .regtest V := by
  obtain ⟨s, t, u, hrun⟩ := sideRun
  have hstart : Recorded crypto .regtest Regtest.H (.earned crypto .regtest Regtest.H) _ s :=
    .opened trivial (And.intro canOpen_empty (openEarned_empty hrun.loaded)) hrun.start
  have hfirst := hstart.pass Regtest.collisionFree (by decide) hrun.extendPass
    (by rw [hrun.switched]; decide) hrun.extend
  have hsecond := hfirst.pass Regtest.collisionFree (by decide) hrun.asidePass
    (by rw [hrun.side]; decide) hrun.aside
  exact ⟨_, u, hsecond, hrun.credited, recorded_credited Regtest.collisionFree hsecond⟩

/-- `b1` loses its work when `a2` extends the other branch, so that `y2` waits
for it unvalidated; the refusal of `x3` gives work to both. -/
theorem not_credited_forgottenBranch : ∃ V s,
    Recorded crypto .regtest Regtest.H (.any crypto .regtest Regtest.H) V s ∧
      ¬ s.Credited .regtest V := by
  have hrun : ((recorded [a1, b1, a2, y2, x3]).map fun res =>
      ((res.2.chainWork.lookup (y2.header.powHash crypto)).isSome,
        (res.2.buildPathToGenesis (y2.header.powHash crypto)).map fun path =>
          decide (res.1.Has path))) = some (true, some false) := by decide +kernel
  obtain ⟨⟨V, s⟩, hrec, heq⟩ := Option.map_eq_some_iff.mp hrun
  obtain ⟨t, hopen, hacc⟩ := Option.bind_eq_some_iff.mp hrec
  obtain ⟨hwork, hpath⟩ := Prod.mk.inj heq
  refine ⟨V, s, ?_, fun h => ?_⟩
  · have hstart : Recorded crypto .regtest Regtest.H (.any crypto .regtest Regtest.H) _ t :=
      .opened trivial canOpen_empty hopen
    exact hstart.acceptRecorded (fun _ _ _ _ _ => trivial) (by decide) hacc
  · obtain ⟨w, hw⟩ := Option.isSome_iff_exists.mp hwork
    obtain ⟨path, hbuild, hhas, -⟩ := h _ _ hw
    simp only at hpath
    rw [hbuild] at hpath
    simp [hhas] at hpath

end Blockchain

end Cryptex
