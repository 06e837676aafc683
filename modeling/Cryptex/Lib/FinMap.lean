import Mathlib.Algebra.BigOperators.Group.Multiset.Basic
import Mathlib.Algebra.Order.BigOperators.Group.Multiset
import Mathlib.Algebra.Order.Group.Int
import Mathlib.Data.Finmap
import Mathlib.Data.List.Sort
import Mathlib.Tactic.Linarith

/-!
# Finite maps as containers

Non-dependent `Finmap`s with what a program needs of its map type beyond
lookups: the sum of a quantity over the entries (`sumBy`), and an order in
which a traversal visits the entries (`VisitOrder`). A hash table visits its
entries in an order the program does not control, so a traversal takes the
order as an argument and its properties hold for every one.
-/

/-- A finite map from `K` to `V`. -/
abbrev FinMap (K V : Type*) := Finmap fun _ : K => V

namespace FinMap

variable {K V : Type*} [DecidableEq K]

/-! ## Updates -/

theorem lookup_insert_ite (m : FinMap K V) (k k' : K) (v : V) :
    Finmap.lookup k' (m.insert k v) = if k' = k then some v else m.lookup k' := by
  by_cases h : k' = k
  · subst h; rw [if_pos rfl, Finmap.lookup_insert]
  · rw [if_neg h, Finmap.lookup_insert_of_ne _ h]

theorem lookup_erase_ite (m : FinMap K V) (k k' : K) :
    Finmap.lookup k' (m.erase k) = if k' = k then none else m.lookup k' := by
  by_cases h : k' = k
  · subst h; rw [if_pos rfl, Finmap.lookup_erase]
  · rw [if_neg h, Finmap.lookup_erase_ne h]

/-- Writing what is there already changes nothing. -/
theorem insert_eq_self {m : FinMap K V} {k : K} {v : V} (h : m.lookup k = some v) :
    m.insert k v = m :=
  Finmap.ext_lookup fun k' => by
    rw [lookup_insert_ite]
    split
    · next heq => rw [heq, h]
    · rfl

/-- Erasing a key that is absent changes nothing. -/
theorem erase_eq_self {m : FinMap K V} {k : K} (h : m.lookup k = none) : m.erase k = m :=
  Finmap.ext_lookup fun k' => by
    rw [lookup_erase_ite]
    split
    · next heq => rw [heq, h]
    · rfl

theorem insert_erase_eq (m : FinMap K V) (k : K) (v : V) : (m.erase k).insert k v = m.insert k v :=
  Finmap.ext_lookup fun k' => by
    simp only [lookup_insert_ite, lookup_erase_ite]
    split <;> rfl

/-- A fresh key that is written and erased again leaves the map alone. -/
theorem erase_insert_eq {m : FinMap K V} {k : K} (h : m.lookup k = none) (v : V) :
    (m.insert k v).erase k = m :=
  Finmap.ext_lookup fun k' => by
    rw [lookup_erase_ite, lookup_insert_ite]
    split
    · next heq => rw [heq, h]
    · rfl

/-- The entries with a value of a kind. -/
def keepIf (p : V → Bool) (m : FinMap K V) : FinMap K V where
  entries := m.entries.filter fun e => p e.2
  nodupKeys := Multiset.nodup_keys.mp
    (Multiset.nodup_of_le (Multiset.map_le_map (Multiset.filter_le _ _))
      (Multiset.nodup_keys.mpr m.nodupKeys))

theorem lookup_keepIf (p : V → Bool) (m : FinMap K V) (k : K) :
    (keepIf p m).lookup k = (m.lookup k).filter p := by
  ext v
  rw [Option.filter_eq_some_iff, Finmap.lookup_eq_some_iff, Finmap.lookup_eq_some_iff, keepIf]
  exact Multiset.mem_filter

/-- Every value is changed by `f`. -/
def mapValues (f : V → V) (m : FinMap K V) : FinMap K V where
  entries := m.entries.map fun e => ⟨e.1, f e.2⟩
  nodupKeys := Multiset.nodup_keys.mp (by
    have h := Multiset.nodup_keys.mpr m.nodupKeys
    rw [Multiset.keys] at h ⊢
    rwa [Multiset.map_map])

theorem lookup_mapValues (f : V → V) (m : FinMap K V) (k : K) :
    (mapValues f m).lookup k = (m.lookup k).map f := by
  ext v
  rw [Option.map_eq_some_iff, Finmap.lookup_eq_some_iff, mapValues]
  constructor
  · intro h
    obtain ⟨⟨k', v'⟩, hmem, heq⟩ := Multiset.mem_map.mp h
    cases heq
    exact ⟨v', Finmap.lookup_eq_some_iff.mpr hmem, rfl⟩
  · rintro ⟨v', hmem, rfl⟩
    exact Multiset.mem_map.mpr ⟨⟨k, v'⟩, Finmap.lookup_eq_some_iff.mp hmem, rfl⟩

theorem card_keys_insert_le (m : FinMap K V) (k : K) (v : V) :
    (m.insert k v).keys.card ≤ m.keys.card + 1 := by
  refine Nat.le_trans (Finset.card_le_card fun j hj => ?_) (Finset.card_insert_le k m.keys)
  rw [Finset.mem_insert, Finmap.mem_keys]
  exact Finmap.mem_insert.mp (Finmap.mem_keys.mp hj)

/-! ## Writing a list of entries -/

/-- The entries are written in order; the last value of a key stands. -/
def insertAll (m : FinMap K V) (l : List (K × V)) : FinMap K V :=
  l.foldl (fun m e => m.insert e.1 e.2) m

@[simp] theorem insertAll_nil (m : FinMap K V) : insertAll m [] = m := rfl

@[simp] theorem insertAll_cons (m : FinMap K V) (e : K × V) (l : List (K × V)) :
    insertAll m (e :: l) = insertAll (m.insert e.1 e.2) l := rfl

theorem insert_ne_empty (m : FinMap K V) (k : K) (v : V) : m.insert k v ≠ ∅ := by
  intro h
  have hk := Finmap.lookup_insert (a := k) (b := v) m
  rw [h, Finmap.lookup_empty] at hk
  cases hk

theorem insertAll_ne_empty : ∀ {l : List (K × V)} {m : FinMap K V}, m ≠ ∅ ∨ l ≠ [] →
    m.insertAll l ≠ ∅
  | [], _, h => h.resolve_right fun hne => hne rfl
  | (k, v) :: _, m, _ => insertAll_ne_empty (m := m.insert k v) (Or.inl (insert_ne_empty m k v))

theorem lookup_insertAll_of_notMem {l : List (K × V)} {m : FinMap K V} {k : K}
    (h : k ∉ l.map Prod.fst) : (insertAll m l).lookup k = m.lookup k := by
  induction l generalizing m with
  | nil => rfl
  | cons e l ih =>
      simp only [List.map_cons, List.mem_cons, not_or] at h
      rw [insertAll_cons, ih h.2, Finmap.lookup_insert_of_ne _ h.1]

theorem lookup_insertAll_of_mem {l : List (K × V)} {m : FinMap K V} {k : K} {v : V}
    (hnd : (l.map Prod.fst).Nodup) (h : (k, v) ∈ l) : (insertAll m l).lookup k = some v := by
  induction l generalizing m with
  | nil => cases h
  | cons e l ih =>
      rw [List.map_cons, List.nodup_cons] at hnd
      rw [insertAll_cons]
      rcases List.mem_cons.mp h with rfl | h
      · rw [lookup_insertAll_of_notMem hnd.1, Finmap.lookup_insert]
      · exact ih hnd.2 h

/-- A value found after writing was written or was there before. -/
theorem mem_of_lookup_insertAll {l : List (K × V)} {m : FinMap K V} {k : K} {v : V}
    (h : (insertAll m l).lookup k = some v) : (k, v) ∈ l ∨ m.lookup k = some v := by
  induction l generalizing m with
  | nil => exact Or.inr h
  | cons e l ih =>
      rw [insertAll_cons] at h
      rcases ih h with hmem | hm
      · exact Or.inl (List.mem_cons_of_mem _ hmem)
      · rw [lookup_insert_ite] at hm
        split at hm
        · next heq =>
            cases hm
            subst heq
            exact Or.inl (by simp)
        · exact Or.inr hm

/-- An entry that is there already stays. -/
def emplace (m : FinMap K V) (k : K) (v : V) : FinMap K V :=
  if (m.lookup k).isSome then m else m.insert k v

/-- The first value of a key stands. -/
def emplaceAll (m : FinMap K V) (l : List (K × V)) : FinMap K V :=
  l.foldl (fun m e => m.emplace e.1 e.2) m

/-- New entries are emplaced as they are inserted. -/
theorem emplaceAll_eq : ∀ {l : List (K × V)} {m : FinMap K V}, (l.map Prod.fst).Nodup →
    (∀ e ∈ l, m.lookup e.1 = none) → m.emplaceAll l = m.insertAll l
  | [], _, _, _ => rfl
  | e :: l, m, hnd, hnew => by
      rw [List.map_cons, List.nodup_cons] at hnd
      have hhead : m.emplace e.1 e.2 = m.insert e.1 e.2 := by
        rw [emplace, hnew e List.mem_cons_self]
        rfl
      rw [emplaceAll, List.foldl_cons, hhead, insertAll_cons]
      refine emplaceAll_eq hnd.2 fun e' he' => ?_
      have hkey : e'.1 ∈ l.map Prod.fst := List.mem_map_of_mem he'
      have hne : e'.1 ≠ e.1 := by
        intro heq
        rw [heq] at hkey
        exact hnd.1 hkey
      rw [Finmap.lookup_insert_of_ne _ hne]
      exact hnew e' (List.mem_cons_of_mem _ he')

/-! ## Sums over the entries -/

/-- The sum of `f` over the values held in the map. -/
def sumBy (f : V → Int) (m : FinMap K V) : Int := (m.entries.map fun e => f e.2).sum

theorem sumBy_insert_of_lookup_none (f : V → Int) {m : FinMap K V} {k : K} (v : V)
    (h : m.lookup k = none) : sumBy f (m.insert k v) = f v + sumBy f m := by
  rw [sumBy, sumBy, Finmap.entries_insert_of_notMem (Finmap.lookup_eq_none.mp h),
    Multiset.map_cons, Multiset.sum_cons]

theorem sumBy_erase (f : V → Int) {m : FinMap K V} {k : K} {v : V} (h : m.lookup k = some v) :
    sumBy f (m.erase k) = sumBy f m - f v := by
  have hback : (m.erase k).insert k v = m := by rw [insert_erase_eq, insert_eq_self h]
  have hsum := sumBy_insert_of_lookup_none f (m := m.erase k) v (Finmap.lookup_erase k m)
  rw [hback] at hsum
  omega

/-- Overwriting drops the old value and adds the new one. -/
theorem sumBy_insert (f : V → Int) (m : FinMap K V) (k : K) (v : V) :
    sumBy f (m.insert k v) = sumBy f m - (m.lookup k).elim 0 f + f v := by
  cases h : m.lookup k with
  | none =>
      rw [sumBy_insert_of_lookup_none f v h, Option.elim_none]
      omega
  | some w =>
      rw [← insert_erase_eq, sumBy_insert_of_lookup_none f v (Finmap.lookup_erase k m),
        sumBy_erase f h, Option.elim_some]
      omega

omit [DecidableEq K] in
@[simp] theorem sumBy_empty (f : V → Int) : sumBy f (∅ : FinMap K V) = 0 := rfl

/-- Every value satisfies `P`. -/
def AllValues (P : V → Prop) (m : FinMap K V) : Prop := ∀ k v, m.lookup k = some v → P v

theorem AllValues.insert {P : V → Prop} {m : FinMap K V} (hm : AllValues P m) (k : K) {v : V}
    (hv : P v) : AllValues P (Finmap.insert k v m) := by
  intro k' v' h
  rw [lookup_insert_ite] at h
  split at h
  · cases h; exact hv
  · exact hm k' v' h

theorem AllValues.erase {P : V → Prop} {m : FinMap K V} (hm : AllValues P m) (k : K) :
    AllValues P (Finmap.erase k m) := by
  intro k' v' h
  rw [lookup_erase_ite] at h
  split at h
  · cases h
  · exact hm k' v' h

theorem allValues_empty (P : V → Prop) : AllValues P (∅ : FinMap K V) := by
  intro k v h
  rw [Finmap.lookup_empty] at h
  cases h

theorem sumBy_nonneg {f : V → Int} {m : FinMap K V} (hm : AllValues (0 ≤ f ·) m) :
    0 ≤ sumBy f m := by
  refine Multiset.sum_nonneg fun x hx => ?_
  obtain ⟨e, he, rfl⟩ := Multiset.mem_map.mp hx
  exact hm e.1 e.2 (Finmap.lookup_eq_some_iff.mpr he)

/-- One value is at most the sum when no value is negative. -/
theorem le_sumBy {f : V → Int} {m : FinMap K V} (hm : AllValues (0 ≤ f ·) m) {k : K} {v : V}
    (h : m.lookup k = some v) : f v ≤ sumBy f m := by
  have herase := sumBy_erase f h
  have hnn := sumBy_nonneg (hm.erase k)
  omega

/-- The sum along a list of the keys. -/
theorem sumBy_eq_sum (f : V → Int) {l : List K} {m : FinMap K V} (hnd : l.Nodup)
    (hl : ∀ k, k ∈ l ↔ ∃ v, m.lookup k = some v) :
    sumBy f m = (l.map fun k => (m.lookup k).elim 0 f).sum := by
  induction l generalizing m with
  | nil =>
      have hempty : m = ∅ := Finmap.ext_lookup fun k => by
        rw [Finmap.lookup_empty]
        cases hk : m.lookup k with
        | none => rfl
        | some v => exact absurd ((hl k).mpr ⟨v, hk⟩) (by simp)
      rw [hempty]
      rfl
  | cons k l ih =>
      obtain ⟨hk, hnd⟩ := List.nodup_cons.mp hnd
      obtain ⟨v, hv⟩ := (hl k).mp List.mem_cons_self
      have herase := sumBy_erase f hv
      have hrest : sumBy f (m.erase k) = (l.map fun k' => ((m.erase k).lookup k').elim 0 f).sum := by
        refine ih hnd fun k' => ?_
        rw [lookup_erase_ite]
        by_cases hkk : k' = k
        · subst hkk
          simp [hk]
        · rw [if_neg hkk, ← hl, List.mem_cons]
          simp [hkk]
      have hsame : l.map (fun k' => ((m.erase k).lookup k').elim 0 f)
          = l.map fun k' => (m.lookup k').elim 0 f := by
        refine List.map_congr_left fun k' hk' => ?_
        have hne : k' ≠ k := by
          rintro rfl
          exact hk hk'
        rw [lookup_erase_ite, if_neg hne]
      rw [List.map_cons, List.sum_cons, ← hsame, ← hrest, herase, hv, Option.elim_some]
      omega

theorem card_keys_eq {l : List K} {m : FinMap K V} (hnd : l.Nodup)
    (hl : ∀ k, k ∈ l ↔ ∃ v, m.lookup k = some v) : m.keys.card = l.length := by
  have hkeys : m.keys = l.toFinset := by
    ext k
    rw [List.mem_toFinset, hl, Finmap.mem_keys, ← Finmap.lookup_isSome, Option.isSome_iff_exists]
  rw [hkeys, List.toFinset_card_of_nodup hnd]
/-! ## Traversal -/

/-- An order in which a traversal visits the entries: every entry once. -/
structure VisitOrder (K V : Type*) [DecidableEq K] where
  visit : FinMap K V → List (K × V)
  mem_visit : ∀ m k v, (k, v) ∈ visit m ↔ m.lookup k = some v
  nodup_visit : ∀ m, (visit m).Nodup

namespace VisitOrder

/-- A traversal names every key once. -/
theorem nodup_keys (order : VisitOrder K V) (m : FinMap K V) :
    ((order.visit m).map Prod.fst).Nodup := by
  refine (order.nodup_visit m).map_on fun e he e' he' hkey => ?_
  have hlookup := (order.mem_visit m e.1 e.2).mp he
  have hlookup' := (order.mem_visit m e'.1 e'.2).mp he'
  rw [hkey, hlookup'] at hlookup
  exact Prod.ext hkey (Option.some.inj hlookup).symm

/-- The entries of a traversal make up the map. -/
theorem insertAll_visit (order : VisitOrder K V) (m : FinMap K V) :
    insertAll ∅ (order.visit m) = m := by
  refine Finmap.ext_lookup fun k => ?_
  cases hk : m.lookup k with
  | some v => exact lookup_insertAll_of_mem (order.nodup_keys m) ((order.mem_visit m k v).mpr hk)
  | none =>
      refine (lookup_insertAll_of_notMem fun hmem => ?_).trans (Finmap.lookup_empty k)
      obtain ⟨e, he, rfl⟩ := List.mem_map.mp hmem
      have hlookup := (order.mem_visit m e.1 e.2).mp he
      rw [hk] at hlookup
      cases hlookup

theorem emplaceAll_visit (order : VisitOrder K V) (m : FinMap K V) :
    emplaceAll ∅ (order.visit m) = m := by
  rw [emplaceAll_eq (order.nodup_keys m) fun _ _ => Finmap.lookup_empty _, insertAll_visit]

end VisitOrder

/-- Keys compared by an injective rank. -/
def RankLe (rank : K → Nat) (a b : K) : Prop := rank a ≤ rank b

instance (rank : K → Nat) : DecidableRel (RankLe rank) := fun a b =>
  inferInstanceAs (Decidable (rank a ≤ rank b))

instance (rank : K → Nat) : Std.Total (RankLe rank) := ⟨fun a b => Nat.le_total (rank a) (rank b)⟩

instance (rank : K → Nat) : IsTrans K (RankLe rank) := ⟨fun _ _ _ => Nat.le_trans⟩

/-- The keys sorted by rank. -/
def sortedKeys (rank : K → Nat) (hrank : Function.Injective rank) (m : FinMap K V) : List K :=
  Quot.lift (List.insertionSort (RankLe rank))
    (fun l l' hperm =>
      List.Perm.eq_of_pairwise
        (fun _ _ _ _ hab hba => hrank (Nat.le_antisymm hab hba))
        (List.pairwise_insertionSort (RankLe rank) l) (List.pairwise_insertionSort (RankLe rank) l')
        ((List.perm_insertionSort _ l).trans (hperm.trans (List.perm_insertionSort _ l').symm)))
    m.keys.val

omit [DecidableEq K] in
theorem mem_sortedKeys {rank : K → Nat} {hrank : Function.Injective rank} {m : FinMap K V}
    {k : K} : k ∈ sortedKeys rank hrank m ↔ k ∈ m := by
  rw [← Finmap.mem_keys, ← Finset.mem_val, sortedKeys]
  induction m.keys.val using Quot.ind with
  | mk l => exact List.mem_insertionSort _

omit [DecidableEq K] in
theorem nodup_sortedKeys {rank : K → Nat} {hrank : Function.Injective rank} {m : FinMap K V} :
    (sortedKeys rank hrank m).Nodup := by
  have hnd := m.keys.nodup
  rw [sortedKeys]
  revert hnd
  induction m.keys.val using Quot.ind with
  | mk l => exact fun hnd => (List.perm_insertionSort _ l).nodup_iff.mpr hnd

/-- Visiting the entries by the rank of their keys. -/
def VisitOrder.byRank (rank : K → Nat) (hrank : Function.Injective rank) : VisitOrder K V where
  visit m := (sortedKeys rank hrank m).filterMap fun k => (m.lookup k).map (Prod.mk k)
  mem_visit m k v := by
    simp only [List.mem_filterMap, Option.map_eq_some_iff, Prod.mk.injEq]
    constructor
    · rintro ⟨k', -, v', hv', rfl, rfl⟩
      exact hv'
    · intro h
      exact ⟨k, mem_sortedKeys.mpr (Finmap.mem_of_lookup_eq_some h), v, h, rfl, rfl⟩
  nodup_visit m := by
    refine List.Nodup.filterMap ?_ nodup_sortedKeys
    intro k k' e he he'
    simp only [Option.mem_def, Option.map_eq_some_iff] at he he'
    obtain ⟨v, -, rfl⟩ := he
    obtain ⟨v', -, heq⟩ := he'
    exact (congrArg Prod.fst heq).symm

end FinMap
