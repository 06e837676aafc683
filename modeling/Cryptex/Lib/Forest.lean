import Mathlib.Data.Finset.Card
import Mathlib.Data.List.Nodup
import Mathlib.Data.List.Infix

/-!
# Forests of parent links

A set of nodes, each of which names its parent, is a root, or is missing.
`PathTo up k l` says that `l` leads from a root down to `k`. A node has at
most one such path and the path repeats no node, whatever the links are; a
node that is missing an ancestor, or that sits above a cycle, has none.

`climb` walks up from a node and gives up on a repetition; it finds the path
exactly when there is one (`climb_iff`).
-/

namespace Forest

variable {K : Type*}

inductive Link (K : Type*) where
  | root
  | parent (k : K)
  | missing
deriving DecidableEq

/-! ## Paths -/

/-- `l` leads from a root to `k`, the root first. -/
inductive PathTo (up : K → Link K) : K → List K → Prop where
  | root {k} : up k = .root → PathTo up k [k]
  | child {k j l} : up k = .parent j → PathTo up j l → PathTo up k (l ++ [k])

/-- The node has a path. -/
def Connected (up : K → Link K) (k : K) : Prop := ∃ l, PathTo up k l

variable {up up' : K → Link K} {k j : K} {l l' : List K}

theorem PathTo.unique (h : PathTo up k l) (h' : PathTo up k l') : l = l' := by
  induction h generalizing l' with
  | root hk =>
      cases h' with
      | root _ => rfl
      | child hk' _ => rw [hk] at hk'; cases hk'
  | child hk _ ih =>
      cases h' with
      | root hk' => rw [hk] at hk'; cases hk'
      | child hk' hj' =>
          rw [hk] at hk'
          cases hk'
          rw [ih hj']

theorem PathTo.getLast? (h : PathTo up k l) : l.getLast? = some k := by
  cases h with
  | root _ => rfl
  | child _ _ => rw [List.getLast?_append]; rfl

theorem PathTo.ne_nil (h : PathTo up k l) : l ≠ [] := by
  rintro rfl
  cases h.getLast?

theorem PathTo.length_pos (h : PathTo up k l) : 0 < l.length := List.length_pos_iff.mpr h.ne_nil

theorem PathTo.mem_self (h : PathTo up k l) : k ∈ l := List.mem_of_getLast? h.getLast?

theorem PathTo.length_eq_one_iff (h : PathTo up k l) : l.length = 1 ↔ up k = .root := by
  cases h with
  | root hk => simp [hk]
  | child hk hj =>
      have := hj.length_pos
      rw [hk, List.length_append, List.length_singleton]
      constructor
      · intro h; omega
      · intro h; cases h

/-- Every prefix of a path is the path of its last node. -/
theorem PathTo.take (h : PathTo up k l) {i : Nat} (hi : l[i]? = some j) :
    PathTo up j (l.take (i + 1)) := by
  induction h with
  | root hk =>
      cases i with
      | zero =>
          simp only [List.getElem?_cons_zero, Option.some.injEq] at hi
          subst hi
          exact .root hk
      | succ i => simp at hi
  | @child k m l hk hm ih =>
      by_cases hlt : i < l.length
      · rw [List.getElem?_append_left hlt] at hi
        rw [List.take_append_of_le_length hlt]
        exact ih hi
      · have hil : i = l.length := by
          have := (List.getElem?_eq_some_iff.mp hi).1
          rw [List.length_append, List.length_singleton] at this
          omega
        subst hil
        rw [List.getElem?_append_right (Nat.le_refl _), Nat.sub_self] at hi
        simp only [List.getElem?_cons_zero, Option.some.injEq] at hi
        subst hi
        rw [List.take_of_length_le (by simp)]
        exact .child hk hm

theorem PathTo.connected_of_mem (h : PathTo up k l) (hj : j ∈ l) : Connected up j := by
  obtain ⟨i, hi⟩ := List.mem_iff_getElem?.mp hj
  exact ⟨_, h.take hi⟩

/-- A node stands at the same place on every path, after the same nodes. -/
theorem PathTo.agree (h : PathTo up k l) {k' : K} (h' : PathTo up k' l') {i i' : Nat}
    (hi : l[i]? = some j) (hi' : l'[i']? = some j) :
    i = i' ∧ l.take (i + 1) = l'.take (i' + 1) := by
  have heq := (h.take hi).unique (h'.take hi')
  refine ⟨?_, heq⟩
  have hlt := (List.getElem?_eq_some_iff.mp hi).1
  have hlt' := (List.getElem?_eq_some_iff.mp hi').1
  have hlen := congrArg List.length heq
  rw [List.length_take, List.length_take] at hlen
  omega

theorem PathTo.nodup (h : PathTo up k l) : l.Nodup := by
  rw [List.nodup_iff_getElem?_ne_getElem?]
  intro i i' hlt hlt' heq
  have hi : l[i]? = some l[i] := List.getElem?_eq_getElem (by omega)
  have hii := (h.agree h hi (heq ▸ hi)).1
  omega

/-- A node on a path other than the last has the next one as its child. -/
theorem PathTo.up_succ (h : PathTo up k l) {i : Nat} (hi : l[i]? = some j) {m : K}
    (hm : l[i + 1]? = some m) : up m = .parent j := by
  have htake := h.take hm
  generalize hl : l.take (i + 1 + 1) = l' at htake
  cases htake with
  | root _ =>
      have hlt := (List.getElem?_eq_some_iff.mp hm).1
      have := congrArg List.length hl
      rw [List.length_take] at this
      simp only [List.length_singleton] at this
      omega
  | @child _ j' l₀ hup hj' =>
      rw [hup]
      have hlt := (List.getElem?_eq_some_iff.mp hm).1
      have hlen := congrArg List.length hl
      rw [List.length_take, List.length_append, List.length_singleton] at hlen
      have hget : (l₀ ++ [m])[i]? = some j := by
        rw [← hl, List.getElem?_take_of_lt (by omega), hi]
      rw [List.getElem?_append_left (by omega)] at hget
      have hlast : l₀.getLast? = some j := by
        rw [List.getLast?_eq_getElem?, ← hget]
        congr 1
        omega
      rw [hj'.getLast?] at hlast
      exact congrArg _ (Option.some.inj hlast)

/-- The path only depends on the links of the nodes on it. -/
theorem PathTo.congr (h : PathTo up k l) (heq : ∀ j ∈ l, up' j = up j) : PathTo up' k l := by
  induction h with
  | root hk => exact .root (by rw [heq _ (by simp), hk])
  | child hk _ ih =>
      exact .child (by rw [heq _ (by simp), hk]) (ih fun j hj => heq j (by simp [hj]))

theorem PathTo.ne_missing (h : PathTo up k l) (hj : j ∈ l) : up j ≠ .missing := by
  obtain ⟨l', hl'⟩ := h.connected_of_mem hj
  cases hl' with
  | root hj => rw [hj]; intro h; cases h
  | child hj _ => rw [hj]; intro h; cases h

/-! ## Climbing -/

variable [DecidableEq K]

/-- Walk up from a node, collecting the nodes visited; `none` on a missing
node, on a repetition, or when the fuel runs out. -/
def climb (up : K → Link K) : Nat → List K → K → Option (List K)
  | 0, _, _ => none
  | fuel + 1, out, cursor =>
      if cursor ∈ out then none
      else
        match up cursor with
        | .missing => none
        | .root => some (cursor :: out)
        | .parent p => climb up fuel (cursor :: out) p

theorem PathTo.climb_eq (h : PathTo up k l) {fuel : Nat} {out : List K}
    (hout : ∀ j ∈ l, j ∉ out) (hfuel : l.length ≤ fuel) :
    climb up fuel out k = some (l ++ out) := by
  induction h generalizing fuel out with
  | root hk =>
      cases fuel with
      | zero => simp at hfuel
      | succ fuel => rw [climb, if_neg (hout _ (by simp)), hk]; rfl
  | @child k m l hk hm ih =>
      have hnd := (PathTo.child hk hm).nodup
      rw [List.nodup_append] at hnd
      cases fuel with
      | zero => simp at hfuel
      | succ fuel =>
          rw [climb, if_neg (hout _ (by simp)), hk]
          simp only
          rw [ih, List.append_assoc, List.singleton_append]
          · intro j hj hmem
            rcases List.mem_cons.mp hmem with rfl | hmem
            · exact hnd.2.2 j hj j (by simp) rfl
            · exact hout j (by simp [hj]) hmem
          · rw [List.length_append, List.length_singleton] at hfuel
            omega

theorem climb_some {fuel : Nat} {out res : List K} (h : climb up fuel out k = some res) :
    ∃ l, PathTo up k l ∧ res = l ++ out := by
  induction fuel generalizing out k with
  | zero => cases h
  | succ fuel ih =>
      rw [climb] at h
      split at h
      · cases h
      · cases hk : up k with
        | missing => rw [hk] at h; cases h
        | root =>
            rw [hk] at h
            cases h
            exact ⟨[k], .root hk, rfl⟩
        | parent p =>
            rw [hk] at h
            obtain ⟨l, hl, rfl⟩ := ih h
            exact ⟨l ++ [k], .child hk hl, by simp⟩

/-- With a round for every node that is not missing, climbing finds the path
exactly when there is one. -/
theorem climb_iff {nodes : Finset K} (hnodes : ∀ j, up j ≠ .missing → j ∈ nodes) {fuel : Nat}
    (hfuel : nodes.card ≤ fuel) : climb up fuel [] k = some l ↔ PathTo up k l := by
  constructor
  · intro h
    obtain ⟨l', hl', rfl⟩ := climb_some h
    rw [List.append_nil]
    exact hl'
  · intro h
    have hlen : l.length ≤ fuel := by
      refine Nat.le_trans ?_ hfuel
      rw [← List.toFinset_card_of_nodup h.nodup]
      refine Finset.card_le_card fun j hj => ?_
      exact hnodes j (h.ne_missing (List.mem_toFinset.mp hj))
    have hc : climb up fuel [] k = some (l ++ []) := h.climb_eq (by simp) hlen
    rw [List.append_nil] at hc
    exact hc

end Forest
