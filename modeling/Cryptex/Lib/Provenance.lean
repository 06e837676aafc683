import Mathlib.Algebra.BigOperators.Group.List.Basic
import Mathlib.Algebra.GroupWithZero.Nat

/-!
# Where a fact comes from

A run takes a state through inputs one by one. A fact that holds at its end and
that only certain inputs can bring about held at its beginning, or was brought
about by one of the inputs, in the state that this one came to.
-/

namespace Provenance

variable {σ ι : Type*} (step : σ → ι → σ)

/-- The inputs of a run, each with the state it comes to. -/
def visits : σ → List ι → List (σ × ι)
  | _, [] => []
  | s, i :: is => (s, i) :: visits (step s i) is

variable {step}

theorem visits_append : ∀ {is : List ι} {js : List ι} {s : σ},
    visits step s (is ++ js) = visits step s is ++ visits step (is.foldl step s) js
  | [], _, _ => rfl
  | i :: is, js, s => by
      rw [List.cons_append, visits, visits_append]
      rfl

/-- An invariant holds at the end of a run. -/
theorem foldl_invariant {Inv : σ → Prop} (hstep : ∀ s i, Inv s → Inv (step s i)) :
    ∀ (is : List ι) {s : σ}, Inv s → Inv (is.foldl step s)
  | [], _, h => h
  | i :: is, s, h => foldl_invariant hstep is (hstep s i h)

/-- What inputs of the kind `Cause` alone bring about. -/
theorem origin {Inv Fact : σ → Prop} {Cause : σ → ι → Prop}
    (hinv : ∀ s i, Inv s → Inv (step s i))
    (hstep : ∀ s i, Inv s → Fact (step s i) → Fact s ∨ Cause s i) : ∀ (is : List ι) {s : σ},
    Inv s → Fact (is.foldl step s) → Fact s ∨ ∃ v ∈ visits step s is, Cause v.1 v.2
  | [], _, _, hfact => .inl hfact
  | i :: is, s, hs, hfact => by
      obtain hfact | ⟨v, hv, hcause⟩ := origin hinv hstep is (hinv s i hs) hfact
      · obtain hfact | hcause := hstep s i hs hfact
        · exact .inl hfact
        · exact .inr ⟨(s, i), List.mem_cons_self, hcause⟩
      · exact .inr ⟨v, List.mem_cons_of_mem _ hv, hcause⟩

/-- A quantity that each step raises by what it adds. -/
theorem foldl_sum {M : Type*} [AddMonoid M] {measure : σ → M} {added : σ → ι → M}
    (hstep : ∀ s i, measure (step s i) = measure s + added s i) : ∀ (is : List ι) (s : σ),
    measure (is.foldl step s) =
      measure s + ((visits step s is).map fun v => added v.1 v.2).sum
  | [], s => (add_zero (measure s)).symm
  | i :: is, s => by
      rw [List.foldl_cons, foldl_sum hstep is, hstep, visits, List.map_cons, List.sum_cons,
        add_assoc]

/-- A budget that inputs of one kind only use up. -/
theorem foldl_used {Inv : σ → Prop} {Kind : ι → Prop} {budget : σ → Nat} {used : σ → ι → Nat}
    (hinv : ∀ s i, Kind i → Inv s → Inv (step s i))
    (hstep : ∀ s i, Kind i → Inv s → budget (step s i) + used s i = budget s) :
    ∀ (is : List ι) {s : σ}, (∀ i ∈ is, Kind i) → Inv s →
      budget (is.foldl step s) + ((visits step s is).map fun v => used v.1 v.2).sum = budget s
  | [], _, _, _ => rfl
  | i :: is, s, hkind, hs => by
      have hi := hkind i List.mem_cons_self
      have hrest := foldl_used hinv hstep is (fun j hj => hkind j (List.mem_cons_of_mem i hj))
        (hinv s i hi hs)
      have hone := hstep s i hi hs
      rw [List.foldl_cons, visits, List.map_cons, List.sum_cons]
      rw [Nat.add_left_comm]
      exact (congrArg (used s i + ·) hrest).trans ((Nat.add_comm _ _).trans hone)

end Provenance
