import Cryptex.Run

/-!
# The history of a call

The passes of a call of `accept_block` follow one another: each starts in the
state that the one before left. What every pass preserves together with a
record of the passes before it, the call preserves (`acceptBlock_history`).
-/

namespace Cryptex

namespace Blockchain

variable {c : Crypto} {p : ChainParams} {env : Env} {skip : Bool} {s s' : Blockchain} {blk : Block}

/-- Passes that follow one another, each over a block of the pool. -/
inductive PassRun (c : Crypto) (p : ChainParams) (env : Env) (skip : Bool) :
    Blockchain → List (Blockchain × Block) → Blockchain → Prop where
  | done {t} : PassRun c p env skip t [] t
  | pass {t t' b id rest} : t.blockPool.lookup id = some b →
      PassRun c p env skip (t.acceptOne c p env skip b).2 rest t' →
      PassRun c p env skip t ((t, b) :: rest) t'

theorem PassRun.append {xs ys : List (Blockchain × Block)} {t : Blockchain}
    (h : PassRun c p env skip s xs t) (h' : PassRun c p env skip t ys s') :
    PassRun c p env skip s (xs ++ ys) s' := by
  induction h with
  | done => exact h'
  | pass hpool _ ih => exact .pass hpool (ih h')

theorem orphanLoop_passRun {accept : Blockchain → Block → Option (Bool × Blockchain)}
    {steps : Blockchain → Block → List (Blockchain × Block)}
    (haccept : ∀ t b r t', accept t b = some (r, t') → ∃ rest, steps t b = (t, b) :: rest ∧
      PassRun c p env skip (t.acceptOne c p env skip b).2 rest t') :
    ∀ (kids : List Hash512) {s s' : Blockchain}, orphanLoop accept s kids = some s' →
      PassRun c p env skip s (orphanPasses steps accept s kids) s' := by
  intro kids
  induction kids with
  | nil =>
      intro s s' h
      cases h
      exact .done
  | cons k kids ih =>
      intro s s' h
      rw [orphanLoop] at h
      rw [orphanPasses]
      cases hk : s.blockPool.lookup k with
      | none =>
          rw [hk] at h
          exact ih h
      | some b =>
          rw [hk] at h
          simp only at h ⊢
          cases hacc : accept s b with
          | none => rw [hacc] at h; cases h
          | some res =>
              obtain ⟨r, t⟩ := res
              rw [hacc] at h
              obtain ⟨rest, hsteps, hrun⟩ := haccept s b r t hacc
              rw [hsteps]
              exact (PassRun.pass hk hrun).append (ih h)

/-- A call is a pass over its block and then passes over blocks of the pool. -/
theorem acceptBlock_passRun : ∀ (fuel : Nat) (s : Blockchain) (blk : Block) (r : Bool)
    (s' : Blockchain), acceptBlock c p env skip fuel s blk = some (r, s') →
    ∃ rest, passes c p env skip fuel s blk = (s, blk) :: rest ∧
      PassRun c p env skip (s.acceptOne c p env skip blk).2 rest s' := by
  intro fuel
  induction fuel with
  | zero => intro s blk r s' h; cases h
  | succ fuel ih =>
      intro s blk r s' h
      rw [acceptBlock] at h
      rw [passes]
      generalize s.acceptOne c p env skip blk = res at h
      obtain ⟨v, s₁⟩ := res
      simp only at h ⊢
      split at h
      · next hv =>
          rw [if_pos hv]
          obtain ⟨s₂, hloop, heq⟩ := Option.map_eq_some_iff.mp h
          cases heq
          exact ⟨_, rfl, orphanLoop_passRun ih _ hloop⟩
      · next hv =>
          rw [if_neg hv]
          cases h
          exact ⟨[], rfl, .done⟩

/-- A call without orphans is one pass. -/
theorem passes_single {fuel : Nat} {r : Bool}
    (hone : (passes c p env skip fuel s blk).length = 1)
    (h : acceptBlock c p env skip fuel s blk = some (r, s')) :
    passes c p env skip fuel s blk = [(s, blk)] := by
  obtain ⟨rest, hpasses, -⟩ := acceptBlock_passRun fuel s blk r s' h
  rw [hpasses, List.length_cons, Nat.add_eq_right, List.length_eq_zero_iff] at hone
  rw [hpasses, hone]

section

variable {α : Type*} {I : List α → Blockchain → Prop} {G : Block → Prop}
  {Q : List α → Blockchain → Block → Prop} (note : Blockchain → Block → α)

/-- What every pass preserves with its note, passes in a row preserve. -/
theorem PassRun.history
    (hstep : ∀ V t b, I V t → G b → Q V t b →
      I (V ++ [note t b]) (t.acceptOne c p env skip b).2)
    (hpool : ∀ V t id b, I V t → t.blockPool.lookup id = some b → G b)
    {xs : List (Blockchain × Block)} (h : PassRun c p env skip s xs s') :
    ∀ V, I V s → (∀ pre x post, xs = pre ++ x :: post →
        Q (V ++ pre.map fun y => note y.1 y.2) x.1 x.2) →
      I (V ++ xs.map fun y => note y.1 y.2) s' := by
  induction h with
  | done =>
      intro V hs _
      rw [List.map_nil, List.append_nil]
      exact hs
  | @pass t t' b id rest hb _ ih =>
      intro V hs hok
      have hone := hstep V t b hs (hpool V t id b hs hb)
        (by simpa using hok [] (t, b) rest rfl)
      have hrest := ih (V ++ [note t b]) hone fun pre x post heq => by
        have hx := hok ((t, b) :: pre) x post (by rw [heq]; rfl)
        simpa using hx
      simpa using hrest

/-- What every pass preserves with its note, a call preserves. -/
theorem acceptBlock_history
    (hstep : ∀ V t b, I V t → G b → Q V t b →
      I (V ++ [note t b]) (t.acceptOne c p env skip b).2)
    (hpool : ∀ V t id b, I V t → t.blockPool.lookup id = some b → G b)
    {fuel : Nat} {r : Bool} {V : List α} (hs : I V s) (hb : G blk)
    (hok : ∀ pre x post, passes c p env skip fuel s blk = pre ++ x :: post →
      Q (V ++ pre.map fun y => note y.1 y.2) x.1 x.2)
    (h : acceptBlock c p env skip fuel s blk = some (r, s')) :
    I (V ++ (passes c p env skip fuel s blk).map fun y => note y.1 y.2) s' := by
  obtain ⟨rest, hpasses, hrun⟩ := acceptBlock_passRun fuel s blk r s' h
  rw [hpasses] at hok ⊢
  have hone := hstep V s blk hs hb (by simpa using hok [] (s, blk) rest rfl)
  have hrest := hrun.history note hstep hpool (V ++ [note s blk]) hone fun pre x post heq => by
    have hx := hok ((s, blk) :: pre) x post (by rw [heq]; rfl)
    simpa using hx
  simpa using hrest

end

end Blockchain

end Cryptex
