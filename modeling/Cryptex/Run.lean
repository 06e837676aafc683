import Mathlib.Logic.Relation
import Cryptex.Constructor

/-!
# Runs

A run opens a data directory, delivers blocks, lets the operator pin and
clear the checkpoint, and may end the process and open the same directory
again. Its conditions are a parameter: which directories the first start may
find, what holds when a directory is opened, and what holds at each pass over
a block. Every call and every start has its own clock, policy and write
faults.
-/

namespace Cryptex

namespace Blockchain

/-! ## Steps -/

/-- One call of `accept_block` that returns, all of its passes meeting a
condition. -/
inductive Delivered (c : Crypto) (p : ChainParams) (H : Set BlockHeader)
    (pass : Env → Bool → Blockchain → Block → Prop) (s s' : Blockchain) : Prop where
  | call (env : Env) (skip : Bool) (fuel : Nat) (blk : Block) (r : Bool) :
      blk.header ∈ H → (∀ x ∈ passes c p env skip fuel s blk, pass env skip x.1 x.2) →
      acceptBlock c p env skip fuel s blk = some (r, s') → Delivered c p H pass s s'

/-- Any number of calls of `accept_block`. -/
abbrev Calls (c : Crypto) (p : ChainParams) (H : Set BlockHeader)
    (pass : Env → Bool → Blockchain → Block → Prop) : Blockchain → Blockchain → Prop :=
  Relation.ReflTransGen (Delivered c p H pass)

/-- What else changes the state: the operator's commands on the checkpoint,
and the owner of the mempool. -/
inductive Operated (s : Blockchain) : Blockchain → Prop where
  | pin (env : Env) : Operated s (pinCheckpointToTip env s)
  | clear (env : Env) : Operated s (clearCheckpointPin env s)
  | refresh (env : Env) : Operated s (refreshLocalCheckpoint env s)
  | mempool (m : Mempool) : Operated s { s with mempool := m }

/-- The conditions under which a run proceeds. -/
structure Rules where
  start : DataDir → Prop
  opens : Env → DataDir → Prop
  pass : Env → Bool → Blockchain → Block → Prop

/-- The states of all runs. -/
inductive Reachable (c : Crypto) (p : ChainParams) (H : Set BlockHeader) (R : Rules) :
    Blockchain → Prop where
  | opened {env dir s} : R.start dir → R.opens env dir → openDir c p env dir = some s →
      Reachable c p H R s
  | delivered {s s'} : Reachable c p H R s → Delivered c p H R.pass s s' → Reachable c p H R s'
  | operated {s s'} : Reachable c p H R s → Operated s s' → Reachable c p H R s'
  | reopened {env s s'} : Reachable c p H R s → R.opens env s.dataDir →
      openDir c p env s.dataDir = some s' → Reachable c p H R s'

/-! ## Rules of induction -/

variable {c : Crypto} {p : ChainParams} {env : Env} {skip : Bool} {H : Set BlockHeader}
  {R : Rules} {I : Blockchain → Prop} {s s' : Blockchain}

/-- What every pass preserves, a call preserves. -/
theorem Delivered.invariant {pass : Env → Bool → Blockchain → Block → Prop}
    (hpass : ∀ env skip s blk, I s → blk.header ∈ H → pass env skip s blk →
      I (s.acceptOne c p env skip blk).2)
    (hpool : ∀ s id blk, I s → s.blockPool.lookup id = some blk → blk.header ∈ H)
    (h : Delivered c p H pass s s') (hs : I s) : I s' := by
  obtain ⟨env, skip, fuel, blk, r, hb, hok, hacc⟩ := h
  exact acceptBlock_rule (G := fun b => b.header ∈ H) (hpass env skip) hpool fuel s blk r s' hs hb
    hok hacc

theorem Calls.invariant {pass : Env → Bool → Blockchain → Block → Prop}
    (hpass : ∀ env skip s blk, I s → blk.header ∈ H → pass env skip s blk →
      I (s.acceptOne c p env skip blk).2)
    (hpool : ∀ s id blk, I s → s.blockPool.lookup id = some blk → blk.header ∈ H)
    (h : Calls c p H pass s s') (hs : I s) : I s' := by
  induction h with
  | refl => exact hs
  | tail _ hstep ih => exact hstep.invariant hpass hpool ih

theorem Reachable.invariant
    (hopen : ∀ env dir s, R.start dir → R.opens env dir → openDir c p env dir = some s → I s)
    (hpass : ∀ env skip s blk, I s → blk.header ∈ H → R.pass env skip s blk →
      I (s.acceptOne c p env skip blk).2)
    (hpool : ∀ s id blk, I s → s.blockPool.lookup id = some blk → blk.header ∈ H)
    (hoper : ∀ s s', I s → Operated s s' → I s')
    (hreopen : ∀ env s s', I s → R.opens env s.dataDir → openDir c p env s.dataDir = some s' → I s')
    (h : Reachable c p H R s) : I s := by
  induction h with
  | opened hstart hopens hs => exact hopen _ _ _ hstart hopens hs
  | delivered _ hstep ih => exact hstep.invariant hpass hpool ih
  | operated _ hstep ih => exact hoper _ _ ih hstep
  | reopened _ hopens hs ih => exact hreopen _ _ _ ih hopens hs

/-! ## Reachable states are coherent -/

/-- The operator's commands touch neither maps nor block files, and leave the
checkpoint on the active chain. -/
theorem Operated.frame (hs : s.Coherent c p H) (h : Operated s s') :
    Frame s s' ∧ ∀ {k hash}, s'.localCheckpoint = some (k, hash) → s.heightMap[k]? = some hash := by
  have hrefresh : ∀ {t : Blockchain} {env : Env}, t.heightMap = s.heightMap →
      t.localCheckpoint = s.localCheckpoint → ∀ {k hash},
      (refreshLocalCheckpoint env t).localCheckpoint = some (k, hash) →
        s.heightMap[k]? = some hash := by
    intro t env hmap hcp k hash hk
    obtain ⟨files, cp, heq, -, -, hcase⟩ := refreshLocalCheckpoint_eq env t
    rw [heq] at hk
    have hk' : cp = some (k, hash) := hk
    rcases hcase with hold | ⟨hash', hnew, hget⟩
    · rw [hold, hcp] at hk'
      exact hs.checkpoint hk'
    · rw [hnew] at hk'
      cases hk'
      rw [← hmap]
      exact hget
  cases h with
  | pin env =>
      refine ⟨?_, fun {k hash} hk => ?_⟩
      · refine Frame.trans (Frame.trans ?_ frame_persistManualCheckpoint)
          frame_persistLocalCheckpoint
        exact ⟨rfl, rfl, rfl⟩
      · rw [pinCheckpointToTip] at hk
        obtain ⟨f₁, h₁⟩ := persistManualCheckpoint_eq env { s with
          localCheckpoint := some (s.bestHeight, s.tipHash), manualCheckpointPinned := true }
        rw [h₁] at hk
        obtain ⟨f₂, h₂⟩ := persistLocalCheckpoint_eq env { s with
          localCheckpoint := some (s.bestHeight, s.tipHash)
          manualCheckpointPinned := true
          files := f₁ }
        rw [h₂] at hk
        cases hk
        exact hs.heightMap_best
  | clear env =>
      refine ⟨?_, fun {k hash} hk => ?_⟩
      · refine Frame.trans (Frame.trans ?_ frame_refreshLocalCheckpoint)
          frame_persistLocalCheckpoint
        exact ⟨rfl, rfl, rfl⟩
      · rw [clearCheckpointPin] at hk
        obtain ⟨f, hf⟩ := persistLocalCheckpoint_eq env (refreshLocalCheckpoint env { s with
          manualCheckpointPinned := false
          files := { s.files with manualCheckpoint := none } })
        rw [hf] at hk
        have hk' : (refreshLocalCheckpoint env { s with
          manualCheckpointPinned := false
          files := { s.files with manualCheckpoint := none } }).localCheckpoint = some (k, hash) := hk
        refine hrefresh ?_ ?_ hk' <;> rfl
  | refresh env => exact ⟨frame_refreshLocalCheckpoint, hrefresh rfl rfl⟩
  | mempool m => exact ⟨⟨rfl, rfl, rfl⟩, hs.checkpoint⟩

theorem Coherent.operated (hs : s.Coherent c p H) (h : Operated s s') : s'.Coherent c p H := by
  obtain ⟨hframe, hcp⟩ := h.frame hs
  exact hframe.coherent hs.forgetCheckpoint hcp

/-- From a coherent state a pass leaves a coherent one. -/
theorem Coherent.acceptOne {blk : Block} (hH : CollisionFree c H) (hs : s.Coherent c p H)
    (hb : blk.header ∈ H) : (s.acceptOne c p env skip blk).2.Coherent c p H :=
  (acceptOne_outcome hH hs hb).coherent hH hs hb

theorem Coherent.pool_mem (hs : s.Coherent c p H) {id : Hash512} {blk : Block}
    (h : s.blockPool.lookup id = some blk) : blk.header ∈ H :=
  hs.index.mem (hs.index.pool h)

theorem Coherent.calls {pass : Env → Bool → Blockchain → Block → Prop} (hH : CollisionFree c H)
    (hs : s.Coherent c p H) (h : Calls c p H pass s s') : s'.Coherent c p H :=
  h.invariant (fun _ _ _ _ ht hb _ => ht.acceptOne hH hb) (fun _ _ _ ht hb => ht.pool_mem hb) hs

/-- A directory that a start can work with: an empty one, or a stored chain
when no write fails. -/
def CanOpen (c : Crypto) (p : ChainParams) (H : Set BlockHeader) (env : Env) (dir : DataDir) :
    Prop :=
  Bootable c p H dir ∧ (dir = DataDir.empty ∨ AllWritable env)

theorem openDir_coherent (hH : CollisionFree c H) {dir : DataDir} (hdir : CanOpen c p H env dir)
    (h : openDir c p env dir = some s) : s.Coherent c p H := by
  obtain ⟨hboot, hempty | hw⟩ := hdir
  · rcases hboot with ⟨-, hg⟩ | ⟨ids, entries, hstored⟩
    · rw [hempty] at h
      obtain ⟨f, -, -, hcoh, -⟩ := openDir_empty hg h
      exact hcoh
    · rw [hempty] at hstored
      cases hstored.index
  · exact (openDir_ordered hH hw hboot h).coherent

theorem Reachable.coherent (hH : CollisionFree c H)
    (hopens : ∀ env dir, R.opens env dir → CanOpen c p H env dir) (h : Reachable c p H R s) :
    s.Coherent c p H :=
  h.invariant (fun _ _ _ _ ho hs => openDir_coherent hH (hopens _ _ ho) hs)
    (fun _ _ _ _ ht hb _ => ht.acceptOne hH hb) (fun _ _ _ ht hb => ht.pool_mem hb)
    (fun _ _ ht ho => ht.operated ho) (fun _ _ _ _ ho hs => openDir_coherent hH (hopens _ _ ho) hs)

/-- Runs without conditions other than that a directory can be opened. -/
def Rules.any (c : Crypto) (p : ChainParams) (H : Set BlockHeader) : Rules where
  start := fun _ => True
  opens := CanOpen c p H
  pass := fun _ _ _ _ => True

theorem Reachable.any_coherent (hH : CollisionFree c H) (h : Reachable c p H (Rules.any c p H) s) :
    s.Coherent c p H :=
  h.coherent hH fun _ _ ho => ho

end Blockchain

end Cryptex
