import Cryptex.Lib.TextLines
import Cryptex.Network.ChatHistory

/-!
# The history file

What `load_history` finds in a file that `append_history_entry` has written.
-/

namespace Cryptex

open Encoding Mail TextLines

namespace Chat

/-! ## Lines of entries -/

/-- The two fields that stand in a line as they are have no tab and no line
break. -/
structure HistoryEntry.Plain (entry : HistoryEntry) : Prop where
  direction : ∀ ch ∈ entry.direction, ch ≠ 9 ∧ ch ≠ 10
  messageId : ∀ ch ∈ entry.messageId, ch ≠ 9 ∧ ch ≠ 10

variable {entry : HistoryEntry}

theorem HistoryEntry.Plain.no_tab (h : entry.Plain) :
    (9 : UInt8) ∉ entry.direction ∧ (9 : UInt8) ∉ entry.messageId :=
  ⟨fun hmem => (h.direction 9 hmem).1 rfl, fun hmem => (h.messageId 9 hmem).1 rfl⟩

theorem decimal_not_space (n : Nat) : ∀ ch ∈ decimal n, isSpace ch = false := by
  obtain ⟨l, -, hlt, -, hdecimal⟩ := exists_digits n
  rw [hdecimal]
  intro ch hch
  obtain ⟨d, hd, rfl⟩ := List.mem_map.mp hch
  exact (not_special_digit d (hlt d hd)).1

theorem mem_joinFields {ch : UInt8} : ∀ {fields : List Bytes}, ch ∈ joinFields fields →
    ch = 9 ∨ ∃ field ∈ fields, ch ∈ field
  | [], h => by cases h
  | [field], h => by
      rw [joinFields, List.intercalate_singleton] at h
      exact .inr ⟨field, List.mem_singleton.mpr rfl, h⟩
  | field :: next :: rest, h => by
      rw [joinFields, List.intercalate_cons_cons, List.mem_append, List.mem_append] at h
      rcases h with h | h
      · rcases h with h | h
        · exact .inr ⟨field, List.mem_cons_self, h⟩
        · exact .inl (List.mem_singleton.mp h)
      · obtain htab | ⟨later, hlater, hmem⟩ := mem_joinFields h
        · exact .inl htab
        · exact .inr ⟨later, List.mem_cons_of_mem _ hlater, hmem⟩

/-- A line of an entry has no line break. -/
theorem HistoryEntry.Plain.one_line (h : entry.Plain) :
    (10 : UInt8) ∉ serializeHistoryEntry entry := by
  have hspace : ∀ {field : Bytes}, (∀ ch ∈ field, isSpace ch = false) → (10 : UInt8) ∉ field := by
    intro field hfield hmem
    exact absurd (hfield 10 hmem) (by decide)
  have hbool : ∀ b, (10 : UInt8) ∉ boolField b := by decide
  have hfields : ∀ field ∈ entryFields entry, (10 : UInt8) ∉ field := by
    intro field hfield
    simp only [entryFields, List.mem_cons, List.not_mem_nil, or_false] at hfield
    rcases hfield with rfl | rfl | rfl | rfl | rfl | rfl | rfl | rfl | rfl | rfl | rfl | rfl | rfl |
      rfl | rfl | rfl | rfl | rfl | rfl | rfl | rfl | rfl | rfl | rfl | rfl | rfl | rfl | rfl | rfl |
      rfl <;>
      first
        | exact fun hmem => (h.direction 10 hmem).2 rfl
        | exact fun hmem => (h.messageId 10 hmem).2 rfl
        | exact hspace (base64Encode_not_space _)
        | exact hspace (decimal_not_space _)
        | exact hbool _
  intro hmem
  obtain htab | ⟨field, hfield, hbreak⟩ := mem_joinFields hmem
  · cases htab
  · exact hfields field hfield hbreak

/-! ## The file -/

/-- The history file after entries were appended; without one there is no
file. -/
def appendHistoryFile (file : Option Bytes) (entry : HistoryEntry) : Option Bytes :=
  some (file.getD [] ++ (serializeHistoryEntry entry ++ [10]))

/-- `load_history` on the bytes of the file. -/
def loadHistoryFile (lib : Crypto) (file : Option Bytes) (query : HistoryQuery) :
    List HistoryEntry :=
  match file with
  | none => []
  | some data => loadHistory lib (getLines 10 data) query

/-- The file after some entries were appended to none. -/
def historyFile (entries : List HistoryEntry) : Option Bytes :=
  entries.foldl appendHistoryFile none

theorem historyFile_append (entries : List HistoryEntry) (entry : HistoryEntry) :
    historyFile (entries ++ [entry]) = appendHistoryFile (historyFile entries) entry := by
  rw [historyFile, List.foldl_append]
  rfl

/-- The file has one line for each entry. -/
theorem historyFile_eq (entries : List HistoryEntry) :
    (historyFile entries).getD [] = putLines 10 (entries.map serializeHistoryEntry) := by
  induction entries using List.reverseRecOn with
  | nil => rfl
  | append_singleton entries entry ih =>
      rw [historyFile_append, appendHistoryFile, Option.getD_some, ih, List.map_append,
        putLines_append, List.map_singleton, putLines_cons, putLines_nil]

theorem parse_lines {entries : List HistoryEntry} (h : ∀ entry ∈ entries, entry.Plain) :
    (entries.map serializeHistoryEntry).filterMap parseHistoryEntry = entries := by
  rw [List.filterMap_map]
  have hparse : entries.filterMap (parseHistoryEntry ∘ serializeHistoryEntry) =
      entries.filterMap some := by
    refine List.filterMap_congr fun entry hentry => ?_
    obtain ⟨hdirection, hid⟩ := (h entry hentry).no_tab
    exact parse_serialize_entry hdirection hid
  rw [hparse, List.filterMap_some]

/-- A query without conditions finds the entries by time and id, the last ones
if there are more than its limit. -/
theorem loadHistoryFile_eq (lib : Crypto) {entries : List HistoryEntry}
    (h : ∀ entry ∈ entries, entry.Plain) (limit : Nat) :
    loadHistoryFile lib (historyFile entries) { limit := limit } =
      lastOf limit (entries.insertionSort fun a b => entryLess b a = false) := by
  have hlines : getLines 10 ((historyFile entries).getD []) =
      entries.map serializeHistoryEntry := by
    rw [historyFile_eq, getLines_putLines]
    intro line hline
    obtain ⟨entry, hentry, rfl⟩ := List.mem_map.mp hline
    exact (h entry hentry).one_line
  have hload : loadHistoryFile lib (historyFile entries) { limit := limit } =
      loadHistory lib (getLines 10 ((historyFile entries).getD [])) { limit := limit } := by
    cases historyFile entries with
    | none =>
        exact (lastOf_nil limit).symm
    | some data => rfl
  have hall : entries.filter (matchesQuery lib · { limit := limit }) = entries :=
    List.filter_eq_self.mpr fun entry _ => rfl
  rw [hload, hlines, loadHistory, parse_lines h, hall]

/-- A line is read as the entry it was written for, in the current layout. A
query without conditions finds the entries that were appended, the last ones by
time and id if there are more than its limit. -/
theorem history_round_trip :
    (∀ entry : HistoryEntry, entry.Plain →
      parseHistoryEntry (serializeHistoryEntry entry) = some entry ∧
        ((serializeHistoryEntry entry).splitOn 9).length = 30) ∧
    ∀ (lib : Crypto) (entries : List HistoryEntry) (limit : Nat),
      (∀ entry ∈ entries, entry.Plain) →
      ((limit = 0 ∨ entries.length ≤ limit) →
        (loadHistoryFile lib (historyFile entries) { limit := limit }).Perm entries) ∧
      ∃ sorted : List HistoryEntry, sorted.Perm entries ∧
        sorted.Pairwise (fun a b => entryLess b a = false) ∧
        loadHistoryFile lib (historyFile entries) { limit := limit } = lastOf limit sorted := by
  refine ⟨fun entry hplain => ?_, fun lib entries limit hplain => ?_⟩
  · obtain ⟨hdirection, hid⟩ := hplain.no_tab
    refine ⟨parse_serialize_entry hdirection hid, ?_⟩
    rw [split_serializeHistoryEntry hdirection hid]
    rfl
  · have hsorted := List.perm_insertionSort (fun a b => entryLess b a = false) entries
    have hload := loadHistoryFile_eq lib hplain limit
    refine ⟨fun hfits => ?_, _, hsorted, ?_, hload⟩
    · rw [hload, lastOf, if_neg]
      · exact hsorted
      · rw [hsorted.length_eq]
        omega
    · exact pairwise_byTime HistoryEntry.timestamp HistoryEntry.messageId entries

/-- Of 51 entries the query with the default limit finds 50. -/
theorem not_history_loaded : ¬ ∀ (lib : Crypto) (entries : List HistoryEntry),
    (∀ entry ∈ entries, entry.Plain) →
      (loadHistoryFile lib (historyFile entries) {}).Perm entries := by
  intro hall
  have hplain : ∀ entry ∈ List.replicate 51 ({} : HistoryEntry), entry.Plain := by
    intro entry hentry
    rw [List.eq_of_mem_replicate hentry]
    exact ⟨nofun, nofun⟩
  let lib : Crypto := ⟨fun _ => 0, fun _ _ _ => true, id, fun address other => address = other⟩
  have hlength := (hall lib _ hplain).length_eq
  have hload : loadHistoryFile lib (historyFile (List.replicate 51 {})) {} = lastOf 50 _ :=
    loadHistoryFile_eq lib hplain 50
  rw [List.length_replicate, hload] at hlength
  have hfew := length_lastOf (l := List.insertionSort (fun a b => entryLess b a = false)
    (List.replicate 51 ({} : HistoryEntry))) (show 0 < 50 by omega)
  omega

end Chat

end Cryptex
