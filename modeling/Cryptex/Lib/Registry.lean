import Mathlib.Data.Finset.Basic
import Mathlib.Data.Finset.Insert
import Mathlib.Logic.Function.Basic

/-!
# Entries under the labels of members

Members come and go, each with a label that it may change, and a table has
entries under labels. A member that leaves takes the entry under its present
label with it. The entries are all live while each stands under the label of
some member.
-/

structure Registry (ι κ : Type*) where
  members : Finset ι
  label : ι → κ
  keys : Finset κ

namespace Registry

variable {ι κ : Type*} {r : Registry ι κ} {i : ι} {k : κ}

/-- Every entry stands under the label of a member. -/
def Live (r : Registry ι κ) : Prop := ∀ k ∈ r.keys, ∃ i ∈ r.members, r.label i = k

/-- A member other than `i` has the label. -/
def Shared (r : Registry ι κ) (i : ι) (k : κ) : Prop := ∃ j ∈ r.members, j ≠ i ∧ r.label j = k

/-- `i` can take the label without leaving an entry behind. -/
def CanRelabel (r : Registry ι κ) (i : ι) (k : κ) : Prop :=
  r.label i = k ∨ r.label i ∉ r.keys ∨ r.Shared i (r.label i)

/-- An entry that `i` makes under the label has a member to stand for it. -/
def CanEnter (r : Registry ι κ) (i : ι) (k : κ) : Prop := i ∈ r.members ∨ r.Shared i k

/-- A label belongs to `i` or to another member. -/
theorem owned_iff (i : ι) : (∃ j ∈ r.members, r.label j = k) ↔
    (i ∈ r.members ∧ r.label i = k) ∨ r.Shared i k := by
  constructor
  · rintro ⟨j, hj, hk⟩
    by_cases h : j = i
    · exact Or.inl ⟨h ▸ hj, h ▸ hk⟩
    · exact Or.inr ⟨j, hj, h, hk⟩
  · rintro (⟨hi, hk⟩ | ⟨j, hj, -, hk⟩)
    · exact ⟨i, hi, hk⟩
    · exact ⟨j, hj, hk⟩

/-- Without members there are no entries. -/
theorem Live.keys_eq_empty (h : r.Live) (hnone : r.members = ∅) : r.keys = ∅ := by
  refine Finset.eq_empty_of_forall_notMem fun k hk => ?_
  obtain ⟨i, hi, -⟩ := h k hk
  rw [hnone] at hi
  exact Finset.notMem_empty i hi

/-! ## Members -/

section

variable [DecidableEq ι]

def join (r : Registry ι κ) (i : ι) (k : κ) : Registry ι κ :=
  { r with members := insert i r.members, label := Function.update r.label i k }

def relabel (r : Registry ι κ) (i : ι) (k : κ) : Registry ι κ :=
  { r with label := Function.update r.label i k }

theorem label_relabel : (r.relabel i k).label i = k := by
  rw [relabel]
  exact Function.update_self ..

theorem label_relabel_of_ne {j : ι} (h : j ≠ i) : (r.relabel i k).label j = r.label j := by
  rw [relabel]
  exact Function.update_of_ne h ..

theorem shared_relabel {k' : κ} : (r.relabel i k).Shared i k' ↔ r.Shared i k' := by
  refine exists_congr fun j => and_congr_right fun _ => and_congr_right fun hj => ?_
  rw [label_relabel_of_ne hj]

theorem Live.join (h : r.Live) (hi : i ∉ r.members) (k : κ) : (r.join i k).Live := by
  intro q hq
  obtain ⟨j, hj, hlabel⟩ := h q hq
  have hne : j ≠ i := ne_of_mem_of_not_mem hj hi
  exact ⟨j, Finset.mem_insert_of_mem hj, (label_relabel_of_ne hne).trans hlabel⟩

theorem Live.relabel (h : r.Live) (hcan : r.CanRelabel i k) : (r.relabel i k).Live := by
  intro q hq
  rcases (owned_iff i).mp (h q hq) with ⟨hi, hlabel⟩ | hshared
  · subst hlabel
    rcases hcan with hsame | hnone | hshared
    · exact (owned_iff i).mpr (Or.inl ⟨hi, label_relabel.trans hsame.symm⟩)
    · exact absurd hq hnone
    · exact (owned_iff i).mpr (Or.inr (shared_relabel.mpr hshared))
  · exact (owned_iff i).mpr (Or.inr (shared_relabel.mpr hshared))

/-- An entry under a label that `i` has given up is that of another member. -/
theorem canRelabel_of_owned (h : r.label i ∈ r.keys → r.label i ≠ k →
    ∃ j ∈ r.members, (r.relabel i k).label j = r.label i) : r.CanRelabel i k := by
  by_cases hsame : r.label i = k
  · exact Or.inl hsame
  by_cases hkey : r.label i ∈ r.keys
  · obtain ⟨j, hj, hlabel⟩ := h hkey hsame
    have hne : j ≠ i := by
      rintro rfl
      exact hsame (hlabel.symm.trans label_relabel)
    exact Or.inr (Or.inr ⟨j, hj, hne, (label_relabel_of_ne hne).symm.trans hlabel⟩)
  · exact Or.inr (Or.inl hkey)

theorem live_relabel_iff (h : r.Live) : (r.relabel i k).Live ↔ r.CanRelabel i k :=
  ⟨fun hlive => canRelabel_of_owned fun hkey _ => hlive _ hkey, h.relabel⟩

end

/-! ## Entries -/

section

variable [DecidableEq κ]

/-- An entry under the label of `i`. -/
def enter (r : Registry ι κ) (i : ι) : Registry ι κ :=
  { r with keys := insert (r.label i) r.keys }

theorem live_enter_iff (h : r.Live) : (r.enter i).Live ↔ r.CanEnter i (r.label i) := by
  constructor
  · intro hlive
    rcases (owned_iff i).mp (hlive _ (Finset.mem_insert_self _ _)) with ⟨hi, -⟩ | hshared
    · exact Or.inl hi
    · exact Or.inr hshared
  · intro hcan q hq
    rcases Finset.mem_insert.mp hq with rfl | hq
    · exact (owned_iff i).mpr (hcan.imp_left fun hi => ⟨hi, rfl⟩)
    · exact h q hq

end

section

variable [DecidableEq ι] [DecidableEq κ]

def leave (r : Registry ι κ) (i : ι) : Registry ι κ :=
  { r with members := r.members.erase i, keys := r.keys.erase (r.label i) }

theorem Live.leave (h : r.Live) (i : ι) : (r.leave i).Live := by
  intro q hq
  obtain ⟨hne, hkey⟩ := Finset.mem_erase.mp hq
  obtain ⟨j, hj, hlabel⟩ := h q hkey
  exact ⟨j, Finset.mem_erase.mpr ⟨fun hji => hne (by rw [← hlabel, hji]), hj⟩, hlabel⟩

/-- A member that changes its label as it leaves takes only the entry under the
new one with it. -/
theorem live_relabel_leave_iff (h : r.Live) :
    ((r.relabel i k).leave i).Live ↔ r.CanRelabel i k := by
  refine ⟨fun hlive => canRelabel_of_owned fun hkey hne => ?_, fun hcan => (h.relabel hcan).leave i⟩
  have hrest : r.label i ∈ ((r.relabel i k).leave i).keys :=
    Finset.mem_erase.mpr ⟨fun heq => hne (heq.trans label_relabel), hkey⟩
  obtain ⟨j, hj, hlabel⟩ := hlive _ hrest
  exact ⟨j, Finset.mem_of_mem_erase hj, hlabel⟩

theorem live_relabel_enter_iff (h : r.Live) :
    ((r.relabel i k).enter i).Live ↔ r.CanRelabel i k ∧ r.CanEnter i k := by
  have hcanEnter : (r.relabel i k).CanEnter i ((r.relabel i k).label i) ↔ r.CanEnter i k := by
    rw [label_relabel]
    exact or_congr_right shared_relabel
  constructor
  · intro hlive
    have hcan : r.CanRelabel i k :=
      canRelabel_of_owned fun hkey _ => hlive _ (Finset.mem_insert_of_mem hkey)
    exact ⟨hcan, hcanEnter.mp ((live_enter_iff (h.relabel hcan)).mp hlive)⟩
  · rintro ⟨hcan, henter⟩
    exact (live_enter_iff (h.relabel hcan)).mpr (hcanEnter.mpr henter)

end

end Registry
