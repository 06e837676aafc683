import Mathlib.Data.List.Nodup
import Mathlib.Data.List.Sort

/-!
# Dictionaries that keep their order

Finite maps as lists of entries, in the order in which the keys were first
written. Writing a key that is there replaces its value in place.
-/

/-- Entries with distinct keys. -/
structure OrderedDict (K V : Type) where
  entries : List (K × V)
  nodup : (entries.map Prod.fst).Nodup

namespace OrderedDict

variable {K V : Type}

def empty : OrderedDict K V := ⟨[], List.nodup_nil⟩

def keys (d : OrderedDict K V) : List K := d.entries.map Prod.fst

variable [DecidableEq K]

def get? (d : OrderedDict K V) (k : K) : Option V :=
  (d.entries.find? fun e => e.1 = k).map Prod.snd

def contains (d : OrderedDict K V) (k : K) : Bool := (d.get? k).isSome

theorem find?_of_mem : ∀ {l : List (K × V)} {k : K} {v : V}, (l.map Prod.fst).Nodup →
    (k, v) ∈ l → l.find? (fun e => e.1 = k) = some (k, v)
  | e :: l, k, v, hnodup, h => by
      rw [List.map_cons, List.nodup_cons] at hnodup
      rcases List.mem_cons.mp h with rfl | h
      · rw [List.find?_cons_of_pos (by simp)]
      · have hne : e.1 ≠ k := fun heq => hnodup.1 (heq ▸ List.mem_map_of_mem h)
        rw [List.find?_cons_of_neg (by simpa using hne), find?_of_mem hnodup.2 h]

theorem get?_eq_some_iff {d : OrderedDict K V} {k : K} {v : V} :
    d.get? k = some v ↔ (k, v) ∈ d.entries := by
  rw [get?, Option.map_eq_some_iff]
  constructor
  · rintro ⟨⟨k', v'⟩, hfind, rfl⟩
    have hkey : k' = k := by simpa using List.find?_some hfind
    exact hkey ▸ List.mem_of_find?_eq_some hfind
  · exact fun h => ⟨(k, v), find?_of_mem d.nodup h, rfl⟩

theorem get?_eq_none_iff {d : OrderedDict K V} {k : K} : d.get? k = none ↔ k ∉ d.keys := by
  rw [Option.eq_none_iff_forall_ne_some]
  constructor
  · intro h hk
    obtain ⟨⟨k', v⟩, hmem, rfl⟩ := List.mem_map.mp hk
    exact h v (get?_eq_some_iff.mpr hmem)
  · intro h v hv
    exact h (List.mem_map_of_mem (get?_eq_some_iff.mp hv))

theorem contains_iff {d : OrderedDict K V} {k : K} : d.contains k = true ↔ k ∈ d.keys := by
  rw [contains, Option.isSome_iff_ne_none, ne_eq, get?_eq_none_iff, not_not]

/-- Two dictionaries with the same entries in some order have the same
values. -/
theorem get?_of_perm {d d' : OrderedDict K V} (h : d.entries.Perm d'.entries) (k : K) :
    d.get? k = d'.get? k := by
  refine Option.ext fun v => ?_
  rw [get?_eq_some_iff, get?_eq_some_iff]
  exact h.mem_iff

/-! ## Writing -/

/-- The entries with a value replaced. -/
def replaced (l : List (K × V)) (k : K) (v : V) : List (K × V) :=
  l.map fun e => if e.1 = k then (k, v) else e

theorem map_fst_replaced (l : List (K × V)) (k : K) (v : V) :
    (replaced l k v).map Prod.fst = l.map Prod.fst := by
  rw [replaced, List.map_map]
  refine List.map_congr_left fun e _ => ?_
  rw [Function.comp_apply]
  split
  · next heq => exact heq.symm
  · rfl

def insert (d : OrderedDict K V) (k : K) (v : V) : OrderedDict K V :=
  if h : k ∈ d.keys then ⟨replaced d.entries k v, by rw [map_fst_replaced]; exact d.nodup⟩
  else
    ⟨d.entries ++ [(k, v)], by
      rw [List.map_append, List.map_singleton]
      exact d.nodup.append (List.nodup_singleton k) (List.disjoint_singleton.mpr h)⟩

theorem mem_entries_insert {d : OrderedDict K V} {k k' : K} {v v' : V} :
    (k', v') ∈ (d.insert k v).entries ↔ (k' = k ∧ v' = v) ∨ (k' ≠ k ∧ (k', v') ∈ d.entries) := by
  rw [insert]
  split
  · next hk =>
      show (k', v') ∈ d.entries.map _ ↔ _
      rw [List.mem_map]
      constructor
      · rintro ⟨e, he, heq⟩
        split at heq
        · cases heq
          exact .inl ⟨rfl, rfl⟩
        · next hne =>
            rw [heq] at he hne
            exact .inr ⟨hne, he⟩
      · rintro (⟨rfl, rfl⟩ | ⟨hne, hmem⟩)
        · obtain ⟨e, he, heq⟩ := List.mem_map.mp hk
          exact ⟨e, he, if_pos heq⟩
        · exact ⟨_, hmem, if_neg hne⟩
  · next hk =>
      rw [List.mem_append, List.mem_singleton, Prod.mk.injEq]
      constructor
      · rintro (hmem | ⟨rfl, rfl⟩)
        · exact .inr ⟨fun heq => hk (heq ▸ List.mem_map_of_mem hmem), hmem⟩
        · exact .inl ⟨rfl, rfl⟩
      · rintro (⟨rfl, rfl⟩ | ⟨-, hmem⟩)
        · exact .inr ⟨rfl, rfl⟩
        · exact .inl hmem

theorem get?_insert (d : OrderedDict K V) (k k' : K) (v : V) :
    (d.insert k v).get? k' = if k' = k then some v else d.get? k' := by
  refine Option.ext fun v' => ?_
  rw [get?_eq_some_iff, mem_entries_insert]
  by_cases hk : k' = k
  · rw [if_pos hk]
    simp [hk, eq_comm]
  · rw [if_neg hk, get?_eq_some_iff]
    simp [hk]

theorem mem_keys_insert {d : OrderedDict K V} {k k' : K} {v : V} :
    k' ∈ (d.insert k v).keys ↔ k' = k ∨ k' ∈ d.keys := by
  rw [← contains_iff, ← contains_iff, contains, contains, get?_insert]
  by_cases hk : k' = k
  · simp [hk]
  · simp [hk]

/-- A value changed in place, when it is there. -/
def modify (d : OrderedDict K V) (k : K) (f : V → V) : OrderedDict K V :=
  match d.get? k with
  | none => d
  | some v => d.insert k (f v)

def erase (d : OrderedDict K V) (k : K) : OrderedDict K V :=
  ⟨d.entries.filter fun e => e.1 ≠ k, d.nodup.sublist (List.filter_sublist.map _)⟩

theorem mem_entries_erase {d : OrderedDict K V} {k k' : K} {v : V} :
    (k', v) ∈ (d.erase k).entries ↔ (k', v) ∈ d.entries ∧ k' ≠ k := by
  rw [erase, List.mem_filter, decide_eq_true_eq]

theorem get?_erase (d : OrderedDict K V) (k k' : K) :
    (d.erase k).get? k' = if k' = k then none else d.get? k' := by
  refine Option.ext fun v => ?_
  rw [get?_eq_some_iff, mem_entries_erase]
  by_cases hk : k' = k
  · rw [if_pos hk]
    simp [hk]
  · rw [if_neg hk, get?_eq_some_iff]
    simp [hk]

/-- Several keys erased in turn. -/
def eraseAll (d : OrderedDict K V) (ks : List K) : OrderedDict K V := ks.foldl erase d

theorem get?_eraseAll : ∀ (ks : List K) (d : OrderedDict K V) (k : K),
    (d.eraseAll ks).get? k = if k ∈ ks then none else d.get? k
  | [], _, _ => by simp [eraseAll]
  | k' :: ks, d, k => by
      rw [eraseAll, List.foldl_cons, ← eraseAll, get?_eraseAll ks, get?_erase]
      by_cases hks : k ∈ ks
      · simp [hks]
      · by_cases hk : k = k'
        · simp [hk]
        · simp [hks, hk]

/-! ## Sorting -/

/-- The entries in the order of their keys. -/
def sorted (le : K → K → Bool) (d : OrderedDict K V) : OrderedDict K V :=
  ⟨d.entries.insertionSort fun a b => le a.1 b.1 = true, by
    exact ((List.perm_insertionSort _ d.entries).map Prod.fst).nodup_iff.mpr d.nodup⟩

theorem get?_sorted (le : K → K → Bool) (d : OrderedDict K V) (k : K) :
    (d.sorted le).get? k = d.get? k :=
  get?_of_perm (List.perm_insertionSort _ d.entries) k

end OrderedDict
