import Mathlib.Data.List.Basic

/-!
# Repeating passes until nothing changes

A step may fire on an entry, which yields a new state. A pass tries the step
on every entry in turn; `run` repeats passes until one fires nowhere. When
every firing lowers a measure, enough fuel ends in a state on which the step
fires nowhere (`run_saturated`); whatever every firing preserves holds at
the end (`run_invariant`).
-/

namespace Saturate

variable {σ ε : Type*} (step : σ → ε → Option σ)

/-- One pass, with a flag that tells whether the step fired. -/
def pass : List ε → Bool × σ → Bool × σ
  | [], acc => acc
  | e :: rest, acc =>
      match step acc.2 e with
      | none => pass rest acc
      | some s => pass rest (true, s)

def run (entries : List ε) : Nat → σ → σ
  | 0, s => s
  | fuel + 1, s =>
      match pass step entries (false, s) with
      | (true, s') => run entries fuel s'
      | (false, s') => s'

variable {step} {I : σ → Prop}

theorem pass_invariant {entries : List ε}
    (hstep : ∀ s e s', e ∈ entries → I s → step s e = some s' → I s') :
    ∀ {b : Bool} {s : σ}, I s → I (pass step entries (b, s)).2 := by
  induction entries with
  | nil => intro b s hs; exact hs
  | cons e rest ih =>
      intro b s hs
      have hrest : ∀ s e s', e ∈ rest → I s → step s e = some s' → I s' :=
        fun s e' s' he => hstep s e' s' (List.mem_cons_of_mem _ he)
      rw [pass]
      cases hfire : step s e with
      | none => exact ih hrest hs
      | some s' => exact ih hrest (hstep s e s' (by simp) hs hfire)

/-- What every firing preserves holds after all passes. -/
theorem run_invariant {entries : List ε}
    (hstep : ∀ s e s', e ∈ entries → I s → step s e = some s' → I s') :
    ∀ (fuel : Nat) {s : σ}, I s → I (run step entries fuel s) := by
  intro fuel
  induction fuel with
  | zero => intro s hs; exact hs
  | succ fuel ih =>
      intro s hs
      have hpass : I (pass step entries (false, s)).2 := pass_invariant hstep hs
      rw [run]
      split
      · next s' heq => rw [heq] at hpass; exact ih hpass
      · next s' heq => rw [heq] at hpass; exact hpass

theorem pass_true (entries : List ε) (s : σ) : (pass step entries (true, s)).1 = true := by
  induction entries generalizing s with
  | nil => rfl
  | cons e rest ih =>
      rw [pass]
      cases step s e with
      | none => exact ih s
      | some s' => exact ih s'

/-- A pass that fires nowhere leaves the state alone. -/
theorem pass_false {entries : List ε} {s s' : σ}
    (h : pass step entries (false, s) = (false, s')) :
    s' = s ∧ ∀ e ∈ entries, step s e = none := by
  induction entries with
  | nil => cases h; exact ⟨rfl, fun e he => absurd he List.not_mem_nil⟩
  | cons e rest ih =>
      rw [pass] at h
      cases hfire : step s e with
      | none =>
          rw [hfire] at h
          obtain ⟨heq, hrest⟩ := ih h
          refine ⟨heq, fun e' he' => ?_⟩
          rcases List.mem_cons.mp he' with rfl | he'
          · exact hfire
          · exact hrest e' he'
      | some s₁ =>
          rw [hfire] at h
          have htrue : (pass step rest (true, s₁)).1 = true := pass_true rest s₁
          simp only [h] at htrue
          cases htrue

theorem pass_measure {entries : List ε} {μ : σ → Nat}
    (hstep : ∀ s e s', e ∈ entries → I s → step s e = some s' → I s')
    (hμ : ∀ s e s', e ∈ entries → I s → step s e = some s' → μ s' < μ s) :
    ∀ {b : Bool} {s s' : σ} {b' : Bool}, I s → pass step entries (b, s) = (b', s') →
      μ s' ≤ μ s ∧ (b = false → b' = true → μ s' < μ s) := by
  induction entries with
  | nil =>
      intro b s s' b' _ h
      cases h
      exact ⟨Nat.le_refl _, fun hb hb' => by rw [hb] at hb'; cases hb'⟩
  | cons e rest ih =>
      intro b s s' b' hs h
      have hrest : ∀ s e s', e ∈ rest → I s → step s e = some s' → I s' :=
        fun s e' s' he => hstep s e' s' (List.mem_cons_of_mem _ he)
      have hμrest : ∀ s e s', e ∈ rest → I s → step s e = some s' → μ s' < μ s :=
        fun s e' s' he => hμ s e' s' (List.mem_cons_of_mem _ he)
      rw [pass] at h
      cases hfire : step s e with
      | none =>
          rw [hfire] at h
          exact ih hrest hμrest hs h
      | some s₁ =>
          rw [hfire] at h
          have hlt := hμ s e s₁ (by simp) hs hfire
          have hle := (ih hrest hμrest (hstep s e s₁ (by simp) hs hfire) h).1
          exact ⟨by omega, fun _ _ => by omega⟩

/-- With more fuel than the measure, the step fires nowhere at the end. -/
theorem run_saturated {entries : List ε} {μ : σ → Nat}
    (hstep : ∀ s e s', e ∈ entries → I s → step s e = some s' → I s')
    (hμ : ∀ s e s', e ∈ entries → I s → step s e = some s' → μ s' < μ s) :
    ∀ (fuel : Nat) {s : σ}, I s → μ s < fuel →
      ∀ e ∈ entries, step (run step entries fuel s) e = none := by
  intro fuel
  induction fuel with
  | zero => intro s _ hfuel; omega
  | succ fuel ih =>
      intro s hs hfuel
      have hpass : I (pass step entries (false, s)).2 := pass_invariant hstep hs
      rw [run]
      split
      · next s' heq =>
          have hlt := (pass_measure hstep hμ hs heq).2 rfl rfl
          rw [heq] at hpass
          exact ih hpass (by omega)
      · next s' heq =>
          obtain ⟨rfl, hnone⟩ := pass_false heq
          exact hnone

end Saturate
