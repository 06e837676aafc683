import Mathlib.Algebra.BigOperators.Group.Finset.Basic
import Mathlib.Data.List.Nodup

/-!
# Exploring with a worklist

From a stack of nodes, visit each node once and push its successors. The
result lists the nodes in the order in which they are visited.
-/

namespace Worklist

variable {K : Type*} [DecidableEq K] (next : K → List K)

/-- The top of the stack first, the nodes seen so far in order. -/
def explore : Nat → List K → List K → List K
  | 0, _, seen => seen
  | _ + 1, [], seen => seen
  | fuel + 1, current :: stack, seen =>
      if current ∈ seen then explore fuel stack seen
      else explore fuel ((next current).reverse ++ stack) (seen ++ [current])

variable {next}

theorem seen_subset_explore {fuel : Nat} {stack seen : List K} {k : K} (h : k ∈ seen) :
    k ∈ explore next fuel stack seen := by
  induction fuel generalizing stack seen with
  | zero => exact h
  | succ fuel ih =>
      cases stack with
      | nil => exact h
      | cons current stack =>
          rw [explore]
          split
          · exact ih h
          · exact ih (List.mem_append_left _ h)

/-- Whatever holds on the stack and passes to successors holds of every node visited. -/
theorem explore_invariant {P : K → Prop} (hnext : ∀ k, P k → ∀ m ∈ next k, P m) {fuel : Nat}
    {stack seen : List K} (hstack : ∀ k ∈ stack, P k) (hseen : ∀ k ∈ seen, P k) :
    ∀ k ∈ explore next fuel stack seen, P k := by
  induction fuel generalizing stack seen with
  | zero => exact hseen
  | succ fuel ih =>
      cases stack with
      | nil => exact hseen
      | cons current stack =>
          have hcur := hstack current (by simp)
          have htail : ∀ k ∈ stack, P k := fun k hk => hstack k (by simp [hk])
          rw [explore]
          split
          · exact ih htail hseen
          · refine ih ?_ ?_
            · intro k hk
              rcases List.mem_append.mp hk with hk | hk
              · exact hnext current hcur k (List.mem_reverse.mp hk)
              · exact htail k hk
            · intro k hk
              rcases List.mem_append.mp hk with hk | hk
              · exact hseen k hk
              · rw [List.mem_singleton.mp hk]
                exact hcur

/-- The rounds left: the stack, and the successors of every node not seen. -/
def roundsLeft (next : K → List K) (nodes : Finset K) (stack seen : List K) : Nat :=
  stack.length + (nodes.filter (· ∉ seen)).sum fun k => (next k).length

theorem roundsLeft_push {nodes : Finset K} (hnodes : ∀ k, next k ≠ [] → k ∈ nodes)
    {current : K} {stack seen : List K} (h : current ∉ seen) :
    roundsLeft next nodes ((next current).reverse ++ stack) (seen ++ [current]) + 1
      = roundsLeft next nodes (current :: stack) seen := by
  have hsplit : (nodes.filter (· ∉ seen)).sum (fun k => (next k).length)
      = (next current).length
        + (nodes.filter (· ∉ seen ++ [current])).sum fun k => (next k).length := by
    have herase : nodes.filter (· ∉ seen ++ [current])
        = (nodes.filter (· ∉ seen)).erase current := by
      ext k
      simp only [Finset.mem_filter, Finset.mem_erase, List.mem_append, List.mem_singleton, not_or]
      tauto
    rw [herase]
    by_cases hmem : current ∈ nodes
    · have hin : current ∈ nodes.filter (· ∉ seen) := Finset.mem_filter.mpr ⟨hmem, h⟩
      exact (Finset.add_sum_erase _ (fun k => (next k).length) hin).symm
    · have hnil : next current = [] := by
        by_contra hne
        exact hmem (hnodes current hne)
      rw [Finset.erase_eq_of_notMem (by simp [hmem]), hnil]
      simp
  simp only [roundsLeft, List.length_append, List.length_reverse, List.length_cons]
  omega

/-- With enough fuel every node of the stack is visited, and the successors
of every node visited are visited. -/
theorem explore_closed {nodes : Finset K} (hnodes : ∀ k, next k ≠ [] → k ∈ nodes) {fuel : Nat}
    {stack seen : List K} (hfuel : roundsLeft next nodes stack seen ≤ fuel)
    (hseen : ∀ k ∈ seen, ∀ m ∈ next k, m ∈ seen ∨ m ∈ stack) :
    (∀ k ∈ stack, k ∈ explore next fuel stack seen) ∧
      ∀ k ∈ explore next fuel stack seen, ∀ m ∈ next k, m ∈ explore next fuel stack seen := by
  induction fuel generalizing stack seen with
  | zero =>
      have hnil : stack = [] := by
        rw [roundsLeft] at hfuel
        exact List.length_eq_zero_iff.mp (by omega)
      subst hnil
      refine ⟨fun k hk => absurd hk List.not_mem_nil, fun k hk m hm => ?_⟩
      rcases hseen k hk m hm with h | h
      · exact h
      · cases h
  | succ fuel ih =>
      cases stack with
      | nil =>
          refine ⟨fun k hk => absurd hk List.not_mem_nil, fun k hk m hm => ?_⟩
          rcases hseen k hk m hm with h | h
          · exact h
          · cases h
      | cons current stack =>
          rw [explore]
          split
          · next hmem =>
            have hle : roundsLeft next nodes stack seen ≤ fuel := by
              simp only [roundsLeft, List.length_cons] at hfuel ⊢
              omega
            obtain ⟨hstack, hclosed⟩ := ih hle (fun k hk m hm => by
              rcases hseen k hk m hm with h | h
              · exact Or.inl h
              · rcases List.mem_cons.mp h with rfl | h
                · exact Or.inl hmem
                · exact Or.inr h)
            refine ⟨fun k hk => ?_, hclosed⟩
            rcases List.mem_cons.mp hk with rfl | hk
            · exact seen_subset_explore hmem
            · exact hstack k hk
          · next hnew =>
            have hle : roundsLeft next nodes ((next current).reverse ++ stack)
                (seen ++ [current]) ≤ fuel := by
              have hpush : roundsLeft next nodes ((next current).reverse ++ stack)
                  (seen ++ [current]) + 1 = roundsLeft next nodes (current :: stack) seen :=
                roundsLeft_push hnodes hnew
              omega
            obtain ⟨hstack, hclosed⟩ := ih hle (fun k hk m hm => by
              rcases List.mem_append.mp hk with hk | hk
              · rcases hseen k hk m hm with h | h
                · exact Or.inl (List.mem_append_left _ h)
                · rcases List.mem_cons.mp h with rfl | h
                  · exact Or.inl (by simp)
                  · exact Or.inr (List.mem_append_right _ h)
              · rw [List.mem_singleton.mp hk] at hm
                exact Or.inr (List.mem_append_left _ (List.mem_reverse.mpr hm)))
            refine ⟨fun k hk => ?_, hclosed⟩
            rcases List.mem_cons.mp hk with rfl | hk
            · exact seen_subset_explore (by simp)
            · exact hstack k (List.mem_append_right _ hk)

end Worklist
