import Mathlib.Order.Basic

/-!
# Scanning up to a gap

A scan goes through the numbers from zero on and stops at the first one, not
below a given start, that follows a run of `gap` unused numbers. It has then
passed every used number that no such run separates from the start
(`Reached.lt_of_stops`).
-/

namespace GapScan

variable (used : Nat → Bool)

/-- The length of the run of unused numbers just before `n`. -/
def trailing : Nat → Nat
  | 0 => 0
  | n + 1 => if used n then 0 else trailing n + 1

/-- A scan that is at `n` stops there. -/
def Stops (start gap n : Nat) : Prop := start ≤ n ∧ gap ≤ trailing used n

/-- `n` is where the scan ends. -/
structure Ends (start gap n : Nat) : Prop where
  stops : Stops used start gap n
  first : ∀ m < n, ¬ Stops used start gap m

/-- A used number, with no `gap` unused ones in a row before it. -/
structure Reached (gap i : Nat) : Prop where
  self : used i = true
  near : ∀ j, j + gap ≤ i → ∃ k, j ≤ k ∧ k < j + gap ∧ used k = true

variable {used} {start gap i m n : Nat}

theorem trailing_succ_of_used (h : used n = true) : trailing used (n + 1) = 0 := by
  rw [trailing, if_pos h]

theorem trailing_succ_of_unused (h : used n = false) :
    trailing used (n + 1) = trailing used n + 1 := by
  rw [trailing, if_neg (by rw [h]; exact Bool.false_ne_true)]

theorem trailing_le : ∀ n, trailing used n ≤ n
  | 0 => Nat.le_refl 0
  | n + 1 => by
      have ih := trailing_le n
      rw [trailing]
      split
      · exact Nat.zero_le _
      · exact Nat.succ_le_succ ih

/-- The numbers of the run are unused. -/
theorem unused_of_trailing : ∀ {n k : Nat}, k < n → n ≤ k + trailing used n → used k = false
  | 0, _, hk, _ => absurd hk (Nat.not_lt_zero _)
  | n + 1, k, hk, hrun => by
      cases hused : used n with
      | true =>
          rw [trailing_succ_of_used hused] at hrun
          omega
      | false =>
          rw [trailing_succ_of_unused hused] at hrun
          rcases Nat.lt_succ_iff_lt_or_eq.mp hk with hlt | rfl
          · exact unused_of_trailing hlt (by omega)
          · exact hused

/-- No scan stops at or before a number that is reached. -/
theorem Reached.lt_of_stops (h : Reached used gap i) (hstops : Stops used start gap n) : i < n := by
  obtain ⟨-, hgap⟩ := hstops
  have hle : trailing used n ≤ n := trailing_le n
  by_contra hge
  obtain ⟨k, hlow, hhigh, hused⟩ := h.near (n - gap) (by omega)
  have hhigh' : k < n := by omega
  have hunused : used k = false := unused_of_trailing hhigh' (by omega)
  rw [hunused] at hused
  cases hused

theorem Ends.unique (hm : Ends used start gap m) (hn : Ends used start gap n) : m = n := by
  rcases Nat.lt_trichotomy m n with hlt | heq | hlt
  · exact absurd hm.stops (hn.first m hlt)
  · exact heq
  · exact absurd hn.stops (hm.first n hlt)

theorem reached_zero (hgap : 0 < gap) (h : used 0 = true) : Reached used gap 0 :=
  ⟨h, fun j hj => by omega⟩

end GapScan
