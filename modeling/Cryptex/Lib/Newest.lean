import Mathlib.Data.Finset.Card
import Mathlib.Data.Finset.Insert
import Mathlib.Data.Finset.Max
import Mathlib.Data.List.Pairwise

/-!
# The newest few

Of a set, `keep` leaves the elements above which there are fewer than `k`. Who
adds elements one by one and keeps the newest after each has kept the newest of
all, whatever the order they came in (`foldl_keep`). A list in ascending order
keeps them at its end (`mem_drop_iff_keep`).
-/

namespace Newest

variable {α : Type*} (less : α → α → Prop) [DecidableRel less]

/-- The elements of a set that are above another. -/
def above (s : Finset α) (x : α) : Finset α := s.filter (less x)

def keep (k : Nat) (s : Finset α) : Finset α := s.filter fun x => (above less s x).card < k

variable {less} {k : Nat} {s t : Finset α} {x y z : α}

theorem mem_above : y ∈ above less s x ↔ y ∈ s ∧ less x y := Finset.mem_filter

theorem mem_keep : x ∈ keep less k s ↔ x ∈ s ∧ (above less s x).card < k := Finset.mem_filter

theorem keep_subset : keep less k s ⊆ s := Finset.filter_subset _ _

theorem above_subset (h : s ⊆ t) (x : α) : above less s x ⊆ above less t x :=
  Finset.filter_subset_filter _ h

/-- A set of at most `k` elements is kept. -/
theorem keep_of_card_le (hirrefl : ∀ a, ¬ less a a) (h : s.card ≤ k) : keep less k s = s := by
  refine Finset.filter_true_of_mem fun x hx => ?_
  refine (Finset.card_lt_card ?_).trans_le h
  exact Finset.filter_ssubset.mpr ⟨x, hx, hirrefl x⟩

section

variable (htrans : ∀ a b c, less a b → less b c → less a c) (hirrefl : ∀ a, ¬ less a a)

include htrans hirrefl

theorem card_above_lt (hy : y ∈ above less s x) :
    (above less s y).card < (above less s x).card := by
  obtain ⟨hmem, hless⟩ := mem_above.mp hy
  refine Finset.card_lt_card (Finset.ssubset_iff_of_subset ?_ |>.mpr ⟨y, hy, fun h => ?_⟩)
  · intro z hz
    obtain ⟨hz, hyz⟩ := mem_above.mp hz
    exact mem_above.mpr ⟨hz, htrans _ _ _ hless hyz⟩
  · exact hirrefl y (mem_above.mp h).2

/-- What is above a kept element is kept. -/
theorem above_keep (h : (above less s x).card < k) :
    above less (keep less k s) x = above less s x := by
  refine Finset.Subset.antisymm (above_subset keep_subset x) fun y hy => ?_
  obtain ⟨hmem, hless⟩ := mem_above.mp hy
  exact mem_above.mpr ⟨mem_keep.mpr ⟨hmem, (card_above_lt htrans hirrefl hy).trans h⟩, hless⟩

theorem keep_keep : keep less k (keep less k s) = keep less k s := by
  ext z
  rw [mem_keep]
  refine and_iff_left_of_imp fun hz => ?_
  rw [above_keep htrans hirrefl (mem_keep.mp hz).2]
  exact (mem_keep.mp hz).2

variable [DecidableEq α]

/-- Above what is not kept there are enough kept elements. -/
theorem le_card_above_keep (h : k ≤ (above less s x).card) :
    k ≤ (above less (keep less k s) x).card := by
  by_cases hall : above less s x ⊆ keep less k s
  · refine h.trans (Finset.card_le_card fun y hy => ?_)
    exact mem_above.mpr ⟨hall hy, (mem_above.mp hy).2⟩
  · -- the highest element that is dropped has its k elements above it
    have hdropped : (above less s x \ keep less k s).Nonempty := Finset.sdiff_nonempty.mpr hall
    obtain ⟨y, hy, hhighest⟩ :=
      Finset.exists_min_image _ (fun y => (above less s y).card) hdropped
    obtain ⟨hyx, hnot⟩ := Finset.mem_sdiff.mp hy
    obtain ⟨hmem, hless⟩ := mem_above.mp hyx
    have hle : k ≤ (above less s y).card := not_lt.mp fun hlt => hnot (mem_keep.mpr ⟨hmem, hlt⟩)
    refine hle.trans (Finset.card_le_card fun z hz => ?_)
    obtain ⟨hzs, hyz⟩ := mem_above.mp hz
    have hzx : z ∈ above less s x := mem_above.mpr ⟨hzs, htrans _ _ _ hless hyz⟩
    refine mem_above.mpr ⟨?_, htrans _ _ _ hless hyz⟩
    by_contra hzdropped
    have hmin := hhighest z (Finset.mem_sdiff.mpr ⟨hzx, hzdropped⟩)
    exact absurd (card_above_lt htrans hirrefl hz) (not_lt.mpr hmin)

/-- Dropping before an element is added drops nothing that would be kept. -/
theorem keep_insert_keep (x : α) :
    keep less k (insert x (keep less k s)) = keep less k (insert x s) := by
  ext z
  rw [mem_keep, mem_keep]
  by_cases h : (above less s z).card < k
  · have habove : above less (insert x (keep less k s)) z = above less (insert x s) z := by
      rw [above, above, Finset.filter_insert, Finset.filter_insert]
      have hkept := above_keep htrans hirrefl h
      rw [above, above] at hkept
      rw [hkept]
    rw [habove, Finset.mem_insert, Finset.mem_insert, mem_keep]
    simp only [h, and_true]
  · have hle := not_lt.mp h
    have hkept := le_card_above_keep htrans hirrefl hle
    have hleft := hkept.trans (Finset.card_le_card
      (above_subset (Finset.subset_insert x (keep less k s)) z))
    have hright := hle.trans (Finset.card_le_card (above_subset (Finset.subset_insert x s) z))
    exact iff_of_false (fun hz => absurd hz.2 (not_lt.mpr hleft))
      fun hz => absurd hz.2 (not_lt.mpr hright)

theorem keep_keep_union (t : Finset α) : keep less k (keep less k s ∪ t) = keep less k (s ∪ t) := by
  induction t using Finset.induction_on with
  | empty => rw [Finset.union_empty, Finset.union_empty, keep_keep htrans hirrefl]
  | insert x t _ ih =>
      rw [Finset.union_insert, Finset.union_insert, ← keep_insert_keep htrans hirrefl, ih,
        keep_insert_keep htrans hirrefl]

/-- One by one, or all at once. -/
theorem foldl_keep : ∀ (xs : List α) (s : Finset α), keep less k s = s →
    xs.foldl (fun s x => keep less k (insert x s)) s = keep less k (s ∪ xs.toFinset)
  | [], s, hs => by
      rw [List.toFinset_nil, Finset.union_empty]
      exact hs.symm
  | x :: xs, s, hs => by
      rw [List.foldl_cons, foldl_keep xs _ (keep_keep htrans hirrefl), List.toFinset_cons,
        Finset.union_insert, ← Finset.insert_union]
      exact keep_keep_union htrans hirrefl xs.toFinset

end

/-! ## Lists -/

variable [DecidableEq α]

/-- The end of an ascending list. -/
theorem mem_drop_iff_keep (htrans : ∀ a b c, less a b → less b c → less a c)
    (hirrefl : ∀ a, ¬ less a a) {x : α} : ∀ {l : List α}, l.Pairwise less →
      (x ∈ l.drop (l.length - k) ↔ x ∈ keep less k l.toFinset)
  | [], _ => by
      rw [List.drop_nil]
      exact iff_of_false List.not_mem_nil (Finset.notMem_empty x)
  | a :: l, h => by
      obtain ⟨hfirst, hrest⟩ := List.pairwise_cons.mp h
      have hnot : a ∉ l := fun ha => hirrefl a (hfirst a ha)
      have hne : ∀ b c, less b c → b ≠ c := fun b c hbc heq => hirrefl c (heq ▸ hbc)
      have hnodup : l.Nodup := hrest.imp (hne _ _)
      have habove : above less (insert a l.toFinset) a = l.toFinset := by
        rw [above, Finset.filter_insert, if_neg (hirrefl a)]
        exact Finset.filter_true_of_mem fun b hb => hfirst b (List.mem_toFinset.mp hb)
      have hcard : l.toFinset.card = l.length := List.toFinset_card_of_nodup hnodup
      rw [List.toFinset_cons, List.length_cons]
      by_cases hall : l.length < k
      · have hsize : (insert a l.toFinset).card ≤ k := by
          refine (Finset.card_insert_le _ _).trans ?_
          rw [hcard]
          exact hall
        rw [keep_of_card_le hirrefl hsize, Nat.sub_eq_zero_of_le hall, List.drop_zero,
          List.mem_cons, Finset.mem_insert, List.mem_toFinset]
      · have hsub : l.length + 1 - k = (l.length - k) + 1 := by omega
        have hkeep : keep less k (insert a l.toFinset) = keep less k l.toFinset := by
          ext z
          rw [mem_keep, mem_keep, Finset.mem_insert]
          constructor
          · rintro ⟨rfl | hz, hlt⟩
            · rw [habove, hcard] at hlt
              exact absurd hlt hall
            · exact ⟨hz, (Finset.card_le_card (above_subset (Finset.subset_insert _ _) z)).trans_lt
                hlt⟩
          · rintro ⟨hz, hlt⟩
            have hbelow : ¬ less z a := fun hza =>
              hirrefl a (htrans a z a (hfirst z (List.mem_toFinset.mp hz)) hza)
            rw [above, Finset.filter_insert, if_neg hbelow]
            exact ⟨.inr hz, hlt⟩
        rw [hsub, List.drop_succ_cons, hkeep]
        exact mem_drop_iff_keep htrans hirrefl hrest

end Newest
