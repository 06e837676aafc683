import Mathlib.Data.List.Basic

/-!
# Lines

The lines of a stream that is read line by line, and of one that was written
line by line.
-/

namespace TextLines

variable {α : Type*} {sep : α}

/-- A stream to which lines were written, each with its separator. -/
def putLines (sep : α) (lines : List (List α)) : List α := lines.flatMap (· ++ [sep])

@[simp] theorem putLines_nil : putLines sep [] = [] := rfl

theorem putLines_append (lines more : List (List α)) :
    putLines sep (lines ++ more) = putLines sep lines ++ putLines sep more :=
  List.flatMap_append

theorem putLines_cons (line : List α) (lines : List (List α)) :
    putLines sep (line :: lines) = line ++ sep :: putLines sep lines := by
  rw [putLines, List.flatMap_cons, List.append_assoc, List.singleton_append, putLines]

variable [DecidableEq α]

/-- The lines of a stream. What stands behind the last separator is a line
unless it is empty. -/
def getLines (sep : α) : List α → List (List α)
  | [] => []
  | ch :: rest =>
      if ch = sep then [] :: getLines sep rest
      else
        match getLines sep rest with
        | [] => [[ch]]
        | line :: lines => (ch :: line) :: lines

/-- A line is read up to its separator. -/
theorem getLines_append : ∀ {line rest : List α}, sep ∉ line →
    getLines sep (line ++ sep :: rest) = line :: getLines sep rest
  | [], rest, _ => by rw [List.nil_append, getLines, if_pos rfl]
  | ch :: line, rest, h => by
      have hch : ch ≠ sep := fun heq => h (heq ▸ List.mem_cons_self)
      rw [List.cons_append, getLines, if_neg hch,
        getLines_append fun hmem => h (List.mem_cons_of_mem _ hmem)]

/-- Lines without a separator are read as they were written. -/
theorem getLines_putLines : ∀ {lines : List (List α)}, (∀ line ∈ lines, sep ∉ line) →
    getLines sep (putLines sep lines) = lines
  | [], _ => rfl
  | line :: lines, h => by
      rw [putLines_cons, getLines_append (h line List.mem_cons_self),
        getLines_putLines fun l hl => h l (List.mem_cons_of_mem _ hl)]

/-- A line has no separator. -/
theorem notMem_of_mem_getLines : ∀ {text line : List α}, line ∈ getLines sep text → sep ∉ line
  | [], _, h => by cases h
  | ch :: rest, line, h => by
      rw [getLines] at h
      split at h
      · obtain rfl | h := List.mem_cons.mp h
        · exact List.not_mem_nil
        · exact notMem_of_mem_getLines h
      · next hne =>
          cases hrest : getLines sep rest with
          | nil =>
              rw [hrest, List.mem_singleton] at h
              subst h
              exact fun hmem => hne (List.mem_singleton.mp hmem).symm
          | cons first lines =>
              rw [hrest] at h
              have hlines : ∀ l ∈ first :: lines, sep ∉ l := fun l hl =>
                notMem_of_mem_getLines (hrest ▸ hl)
              obtain rfl | h := List.mem_cons.mp h
              · intro hmem
                obtain heq | hmem := List.mem_cons.mp hmem
                · exact hne heq.symm
                · exact hlines first List.mem_cons_self hmem
              · exact hlines line (List.mem_cons_of_mem _ h)

end TextLines
