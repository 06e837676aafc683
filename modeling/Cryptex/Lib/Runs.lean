import Mathlib.Data.List.Destutter

/-!
# Runs of equal keys

The first element of each run of a list, and when these have different keys: if
equal keys stand in a row, which in a sorted list means that no other key comes
between two equal ones.
-/

namespace Runs

variable {α κ : Type*} {key : α → κ} {l : List α}

/-- Between two elements with one key there is no other key. -/
def Grouped (key : α → κ) (l : List α) : Prop :=
  ∀ x y z, [x, y, z].Sublist l → key x = key z → key y = key x

theorem Grouped.sublist {l' : List α} (h : Grouped key l) (hsub : l'.Sublist l) :
    Grouped key l' := fun x y z hxyz => h x y z (hxyz.trans hsub)

/-- A key that comes back in a grouped list stands at its head. -/
theorem Grouped.head {a b : α} (h : Grouped key (a :: b :: l)) (hne : key a ≠ key b) :
    ∀ c ∈ b :: l, key c ≠ key a := by
  intro c hc heq
  obtain rfl | hc := List.mem_cons.mp hc
  · exact hne heq.symm
  · have hsub : [a, b, c].Sublist (a :: b :: l) :=
      ((List.singleton_sublist.mpr hc).cons_cons b).cons_cons a
    exact hne (h a b c hsub heq.symm).symm

theorem grouped_cons {a : α} (h : Grouped key l) (hnew : ∀ c ∈ l, key c ≠ key a) :
    Grouped key (a :: l) := by
  intro x y z hsub heq
  cases hsub with
  | cons _ hsub => exact h x y z hsub heq
  | cons_cons _ hsub =>
      have hz : z ∈ l := hsub.subset (List.mem_cons_of_mem _ List.mem_cons_self)
      exact absurd heq.symm (hnew z hz)

/-- An element may be repeated where it stands. -/
theorem grouped_cons_cons {a b : α} (heq : key a = key b) :
    Grouped key (a :: b :: l) ↔ Grouped key (a :: l) := by
  refine ⟨fun h => h.sublist ((List.sublist_cons_self b l).cons_cons a), fun h => ?_⟩
  intro x y z hsub hxz
  cases hsub with
  | cons _ hsub =>
      cases hsub with
      | cons _ hsub => exact h x y z (hsub.cons a) hxz
      | cons_cons _ hsub =>
          rw [← heq] at hxz ⊢
          exact h a y z (hsub.cons_cons a) hxz
  | cons_cons _ hsub =>
      cases hsub with
      | cons _ hsub => exact h a y z (hsub.cons_cons a) hxz
      | cons_cons _ hsub => exact heq.symm

/-! ## The first of each run -/

variable [DecidableEq κ]

/-- `std::unique` by a key. -/
def firsts (key : α → κ) (l : List α) : List α := l.destutter fun a b => key a ≠ key b

theorem firsts_sublist : (firsts key l).Sublist l := List.destutter_sublist _ l

theorem firsts_cons_cons (a b : α) (l : List α) : firsts key (a :: b :: l) =
    if key a = key b then firsts key (a :: l) else a :: firsts key (b :: l) := by
  rw [firsts, List.destutter_cons', List.destutter'_cons, ite_not]
  rfl

theorem mem_keys_firsts {k : κ} : k ∈ (firsts key l).map key ↔ k ∈ l.map key := by
  cases l with
  | nil => exact Iff.rfl
  | cons a l =>
      induction l generalizing a with
      | nil => exact Iff.rfl
      | cons b l ih =>
          rw [firsts_cons_cons]
          split
          · next heq =>
              rw [ih]
              simp only [List.map_cons, List.mem_cons, heq, or_self_left]
          · rw [List.map_cons, List.mem_cons, ih, ← List.mem_cons, ← List.map_cons]

theorem grouped_of_length_le (h : l.length ≤ 2) : Grouped key l := by
  intro x y z hsub
  have hlength := hsub.length_le
  simp only [List.length_cons, List.length_nil] at hlength
  omega

/-- The first elements have different keys exactly if the list is grouped. -/
theorem nodup_firsts_iff : ((firsts key l).map key).Nodup ↔ Grouped key l := by
  cases l with
  | nil => exact iff_of_true List.nodup_nil (grouped_of_length_le (Nat.zero_le 2))
  | cons a l =>
      induction l generalizing a with
      | nil => exact iff_of_true (List.nodup_singleton _) (grouped_of_length_le (Nat.le_succ 1))
      | cons b l ih =>
          rw [firsts_cons_cons]
          split
          · next heq => rw [ih, grouped_cons_cons heq]
          · next hne =>
              rw [List.map_cons, List.nodup_cons, mem_keys_firsts, ih]
              constructor
              · rintro ⟨hnew, hgrouped⟩
                exact grouped_cons hgrouped fun c hc heq => hnew (heq ▸ List.mem_map_of_mem hc)
              · intro hgrouped
                refine ⟨fun hmem => ?_, hgrouped.sublist (List.sublist_cons_self _ _)⟩
                obtain ⟨c, hc, heq⟩ := List.mem_map.mp hmem
                exact hgrouped.head hne c hc heq

/-! ## Sorted lists -/

omit [DecidableEq κ]

variable {less : α → α → Prop}

/-- No element comes strictly between two others that have one key, unless it
has the same. -/
def Unsplit (less : α → α → Prop) (key : α → κ) (l : List α) : Prop :=
  ∀ a ∈ l, ∀ m ∈ l, ∀ b ∈ l, key a = key b → less a m → less m b → key m = key a

/-- What is greater than an element of a sorted list comes after it. -/
theorem mem_after_of_less {a m : α} {s t : List α}
    (hsorted : (s ++ a :: t).Pairwise fun x y => ¬ less y x) (hm : m ∈ s ++ a :: t)
    (hless : less a m) (hne : m ≠ a) : m ∈ t := by
  obtain hs | hm := List.mem_append.mp hm
  · exact absurd hless ((List.pairwise_append.mp hsorted).2.2 m hs a List.mem_cons_self)
  · obtain h | hm := List.mem_cons.mp hm
    · exact absurd h hne
    · exact hm

/-- A sorted list is grouped exactly if it is unsplit. -/
theorem grouped_iff_unsplit (hsorted : l.Pairwise fun x y => ¬ less y x)
    (htotal : ∀ x y, key x ≠ key y → less x y ∨ less y x) : Grouped key l ↔ Unsplit less key l := by
  constructor
  · intro h a ha m hm b hb hab ham hmb
    by_contra hne
    obtain ⟨s, t, rfl⟩ := List.append_of_mem ha
    have hmt := mem_after_of_less hsorted hm ham fun heq => hne (heq ▸ rfl)
    obtain ⟨s', t', rfl⟩ := List.append_of_mem hmt
    rw [← List.cons_append, ← List.append_assoc] at hsorted hb
    have hbt := mem_after_of_less hsorted hb hmb fun heq => hne (heq ▸ hab.symm)
    have hsub : [a, m, b].Sublist (s ++ a :: (s' ++ m :: t')) := by
      refine List.Sublist.trans ?_ (List.sublist_append_right s _)
      refine List.Sublist.cons_cons a (List.Sublist.trans ?_ (List.sublist_append_right s' _))
      exact (List.singleton_sublist.mpr hbt).cons_cons m
    exact hne (h a m b hsub hab)
  · intro h x y z hsub hxz
    by_contra hne
    have hpair := hsorted.sublist hsub
    obtain ⟨hx, hyz⟩ := List.pairwise_cons.mp hpair
    have hyx := hx y List.mem_cons_self
    have hzy := (List.pairwise_cons.mp hyz).1 z List.mem_cons_self
    have hxy : less x y := (htotal y x hne).resolve_left hyx
    have hyz' : less y z := (htotal z y fun heq => hne (heq ▸ hxz.symm)).resolve_left hzy
    have hmem : x ∈ l ∧ y ∈ l ∧ z ∈ l :=
      ⟨hsub.subset (by simp), hsub.subset (by simp), hsub.subset (by simp)⟩
    exact hne (h x hmem.1 y hmem.2.1 z hmem.2.2 hxz hxy hyz')

end Runs
