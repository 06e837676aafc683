import Mathlib.Data.List.Sort

/-!
# Tables kept as lists

Replacing a row by its key, and what is in the table afterwards. Rows may share
a key: `upsert` replaces the first of them.
-/

namespace Table

variable {α κ : Type*} [DecidableEq κ]

/-- Replace the first row with the key of `x`, or add `x` at the end. -/
def upsert (key : α → κ) (x : α) : List α → List α
  | [] => [x]
  | y :: rows => if key y = key x then x :: rows else y :: upsert key x rows

theorem mem_upsert_self (key : α → κ) (x : α) : ∀ rows : List α, x ∈ upsert key x rows
  | [] => List.mem_singleton_self x
  | y :: rows => by
      rw [upsert]
      split
      · exact List.mem_cons_self
      · exact List.mem_cons_of_mem _ (mem_upsert_self key x rows)

theorem mem_of_mem_upsert {key : α → κ} {x z : α} : ∀ {rows : List α},
    z ∈ upsert key x rows → z = x ∨ z ∈ rows
  | [], h => .inl (List.mem_singleton.mp h)
  | y :: rows, h => by
      rw [upsert] at h
      split at h
      · rcases List.mem_cons.mp h with hx | hrest
        · exact .inl hx
        · exact .inr (List.mem_cons_of_mem _ hrest)
      · rcases List.mem_cons.mp h with hy | hrest
        · exact .inr (hy ▸ List.mem_cons_self)
        · exact (mem_of_mem_upsert hrest).imp_right (List.mem_cons_of_mem _)

/-- Rows with other keys stay. -/
theorem mem_upsert_of_ne {key : α → κ} {x z : α} (hne : key z ≠ key x) : ∀ {rows : List α},
    z ∈ rows → z ∈ upsert key x rows
  | y :: rows, h => by
      rw [upsert]
      split
      · next hkey =>
          rcases List.mem_cons.mp h with hy | hrest
          · exact absurd (hy ▸ hkey) hne
          · exact List.mem_cons_of_mem _ hrest
      · rcases List.mem_cons.mp h with hy | hrest
        · exact hy ▸ List.mem_cons_self
        · exact List.mem_cons_of_mem _ (mem_upsert_of_ne hne hrest)

/-- The keys that were there are still there. -/
theorem exists_key_upsert {key : α → κ} (x : α) {k : κ} {rows : List α}
    (h : ∃ z ∈ rows, key z = k) : ∃ z ∈ upsert key x rows, key z = k := by
  obtain ⟨z, hz, hkey⟩ := h
  by_cases hx : key z = key x
  · exact ⟨x, mem_upsert_self key x rows, hx.symm.trans hkey⟩
  · exact ⟨z, mem_upsert_of_ne hx hz, hkey⟩

theorem map_key_upsert (key : α → κ) (x : α) : ∀ rows : List α,
    (upsert key x rows).map key
      = if key x ∈ rows.map key then rows.map key else rows.map key ++ [key x]
  | [] => rfl
  | y :: rows => by
      rw [upsert]
      by_cases hkey : key y = key x
      · rw [if_pos hkey, List.map_cons, List.map_cons, hkey, if_pos List.mem_cons_self]
      · rw [if_neg hkey, List.map_cons, map_key_upsert key x rows, List.map_cons]
        by_cases hmem : key x ∈ rows.map key
        · rw [if_pos hmem, if_pos (List.mem_cons_of_mem _ hmem)]
        · rw [if_neg hmem, if_neg (fun h => ?_), List.cons_append]
          rcases List.mem_cons.mp h with hfirst | hrest
          · exact hkey hfirst.symm
          · exact hmem hrest

/-- Distinct keys stay distinct. -/
theorem nodup_key_upsert {key : α → κ} (x : α) {rows : List α} (h : (rows.map key).Nodup) :
    ((upsert key x rows).map key).Nodup := by
  rw [map_key_upsert]
  split
  · exact h
  · next hmem =>
      rw [List.nodup_append]
      refine ⟨h, List.nodup_singleton _, fun k hk k' hk' hsame => ?_⟩
      rw [List.mem_singleton] at hk'
      rw [← hk', ← hsame] at hmem
      exact hmem hk

/-- With distinct keys, the new row is the only one with its key. -/
theorem eq_of_mem_upsert {key : α → κ} {x z : α} {rows : List α} (h : (rows.map key).Nodup)
    (hz : z ∈ upsert key x rows) (hkey : key z = key x) : z = x :=
  List.inj_on_of_nodup_map (nodup_key_upsert x h) hz (mem_upsert_self key x rows) hkey

end Table
