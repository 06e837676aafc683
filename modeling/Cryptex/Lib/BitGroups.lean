import Mathlib.Data.Nat.Bitwise
import Mathlib.Data.List.Induction

/-!
# Numbers as groups of bits

A number of a fixed width as the list of its bits, the most significant one
first, and a list of bits cut into groups of one width.
-/

namespace BitGroups

/-! ## Bits of a number -/

/-- The lowest `width` bits of a number. -/
def expand (width n : Nat) : List Bool :=
  (List.range width).map fun i => n.testBit (width - 1 - i)

/-- The number with the given bits. -/
def pack (bits : List Bool) : Nat := bits.foldl (fun n b => 2 * n + b.toNat) 0

@[simp]
theorem length_expand (width n : Nat) : (expand width n).length = width := by
  rw [expand, List.length_map, List.length_range]

theorem getElem?_expand (width n i : Nat) :
    (expand width n)[i]? = if i < width then some (n.testBit (width - 1 - i)) else none := by
  rw [expand, List.getElem?_map]
  split
  · next hi => rw [List.getElem?_range hi, Option.map_some]
  · next hi => rw [List.getElem?_eq_none (by rw [List.length_range]; omega), Option.map_none]

theorem pack_append_singleton (bits : List Bool) (b : Bool) :
    pack (bits ++ [b]) = 2 * pack bits + b.toNat := by
  rw [pack, List.foldl_append]
  rfl

theorem pack_lt (bits : List Bool) : pack bits < 2 ^ bits.length := by
  induction bits using List.reverseRecOn with
  | nil => exact Nat.one_pos
  | append_singleton bits b ih =>
      have hb : b.toNat < 2 := Bool.toNat_lt b
      rw [pack_append_singleton, List.length_append, List.length_singleton, pow_succ]
      omega

theorem expand_succ (width n : Nat) :
    expand (width + 1) n = expand width (n / 2) ++ [n.testBit 0] := by
  rw [expand, List.range_succ, List.map_append, List.map_singleton]
  congr 1
  · refine List.map_congr_left fun i hi => ?_
    rw [← Nat.testBit_succ]
    congr 1
    have := List.mem_range.mp hi
    omega
  · rw [Nat.add_sub_cancel, Nat.sub_self]

theorem expand_pack (bits : List Bool) : expand bits.length (pack bits) = bits := by
  induction bits using List.reverseRecOn with
  | nil => rfl
  | append_singleton bits b ih =>
      have hhalf : (2 * pack bits + b.toNat) / 2 = pack bits := by
        have hb : b.toNat < 2 := Bool.toNat_lt b
        omega
      have hlow : (2 * pack bits + b.toNat).testBit 0 = b := by
        cases b <;> simp [Nat.testBit_zero]
      rw [pack_append_singleton, List.length_append, List.length_singleton, expand_succ, hhalf, ih,
        hlow]

theorem pack_expand {width n : Nat} (h : n < 2 ^ width) : pack (expand width n) = n := by
  induction width generalizing n with
  | zero =>
      rw [pow_zero, Nat.lt_one_iff] at h
      rw [h]
      rfl
  | succ width ih =>
      have hhalf : n / 2 < 2 ^ width := by
        rw [pow_succ] at h
        omega
      have hlow : (n.testBit 0).toNat = n % 2 := by
        rw [Nat.testBit_zero]
        rcases Nat.mod_two_eq_zero_or_one n with h | h <;> rw [h] <;> rfl
      rw [expand_succ, pack_append_singleton, ih hhalf, hlow]
      omega

/-- Numbers of one width are determined by their bits. -/
theorem expand_inj {width m n : Nat} (hm : m < 2 ^ width) (hn : n < 2 ^ width)
    (h : expand width m = expand width n) : m = n := by
  rw [← pack_expand hm, h, pack_expand hn]

/-! ## Groups -/

variable {α β : Type*}

/-- Group `i` of the groups of `width` elements. -/
def group (width : Nat) (l : List α) (i : Nat) : List α := (l.drop (width * i)).take width

theorem length_group {width i : Nat} {l : List α} (h : width * (i + 1) ≤ l.length) :
    (group width l i).length = width := by
  rw [Nat.mul_succ] at h
  rw [group, List.length_take, List.length_drop]
  omega

theorem getElem?_group {width i : Nat} (l : List α) {j : Nat} (hj : j < width) :
    (group width l i)[j]? = l[width * i + j]? := by
  rw [group, List.getElem?_take_of_lt hj, List.getElem?_drop]

/-- The groups of a list, one after the other, are the list. -/
theorem flatMap_group (width : Nat) (l : List α) : ∀ count : Nat,
    (List.range count).flatMap (group width l) = l.take (width * count)
  | 0 => by rw [Nat.mul_zero, List.take_zero]; rfl
  | count + 1 => by
      rw [List.range_succ, List.flatMap_append, flatMap_group width l count, List.flatMap_singleton,
        Nat.mul_succ, List.take_add]
      rfl

theorem length_flatMap {width : Nat} {f : β → List α} (hf : ∀ x, (f x).length = width) :
    ∀ l : List β, (l.flatMap f).length = width * l.length
  | [] => rfl
  | x :: l => by
      rw [List.flatMap_cons, List.length_append, hf, length_flatMap hf l, List.length_cons,
        Nat.mul_succ, Nat.add_comm]

/-- What is expanded to groups of one width is found in its group. -/
theorem group_flatMap {width : Nat} {f : β → List α} (hf : ∀ x, (f x).length = width)
    (rest : List α) : ∀ {l : List β} {i : Nat} {x : β}, l[i]? = some x →
      group width (l.flatMap f ++ rest) i = f x
  | y :: l, 0, x, h => by
      cases h
      rw [group, Nat.mul_zero, List.drop_zero, List.flatMap_cons, List.append_assoc,
        List.take_append_of_le_length (hf y).ge, List.take_of_length_le (hf y).le]
  | y :: l, i + 1, x, h => by
      rw [List.getElem?_cons_succ] at h
      rw [← group_flatMap hf rest h, group, group, Nat.mul_succ, Nat.add_comm, ← List.drop_drop,
        List.flatMap_cons, List.append_assoc, List.drop_append_of_le_length (hf y).ge,
        List.drop_of_length_le (hf y).le, List.nil_append]

/-- Lists are determined by what they expand to, if their elements are. -/
theorem flatMap_inj {width : Nat} {f : β → List α} (hwidth : 0 < width)
    (hf : ∀ x, (f x).length = width) {l l' : List β}
    (hinj : ∀ x ∈ l, ∀ y ∈ l', f x = f y → x = y) (h : l.flatMap f = l'.flatMap f) : l = l' := by
  have hlength : l.length = l'.length := by
    have := congrArg List.length h
    rw [length_flatMap hf, length_flatMap hf] at this
    exact Nat.eq_of_mul_eq_mul_left hwidth this
  refine List.ext_getElem? fun i => ?_
  cases hi : l[i]? with
  | none =>
      rw [List.getElem?_eq_none_iff, hlength] at hi
      exact (List.getElem?_eq_none_iff.mpr hi).symm
  | some x =>
      obtain ⟨hlt, -⟩ := List.getElem?_eq_some_iff.mp hi
      obtain ⟨y, hy⟩ : ∃ y, l'[i]? = some y := ⟨_, List.getElem?_eq_getElem (by omega)⟩
      have hxy : f x = f y := by
        rw [← group_flatMap hf [] hi, h, group_flatMap hf [] hy]
      rw [hy, hinj x (List.mem_of_getElem? hi) y (List.mem_of_getElem? hy) hxy]

end BitGroups
