import Mathlib.Data.Finset.Card
import Mathlib.Data.List.Nodup

/-!
# A window of outstanding requests

Keys wait in a queue, each with the source it is to be asked from, until they
are asked for; at most `limit` of them are in flight. A second set says which
keys are in the queue.
-/

namespace Cryptex

structure Window (κ σ : Type*) where
  queue : List (κ × σ)
  queued : Finset κ
  inflight : Finset κ

namespace Window

variable {κ σ : Type*}

def empty : Window κ σ := ⟨[], ∅, ∅⟩

/-- The keys in the queue. -/
def keys (w : Window κ σ) : List κ := w.queue.map Prod.fst

/-- The two sets fit the queue and the limit. -/
structure Sound (limit : Nat) (w : Window κ σ) : Prop where
  nodup : w.keys.Nodup
  queued : ∀ k, k ∈ w.queued ↔ k ∈ w.keys
  disjoint : ∀ k ∈ w.queued, k ∉ w.inflight
  bounded : w.inflight.card ≤ limit

/-- Nothing waits while there is room. -/
def Drained (limit : Nat) (w : Window κ σ) : Prop := w.queue = [] ∨ limit ≤ w.inflight.card

variable {limit : Nat}

theorem sound_empty : Sound limit (empty : Window κ σ) :=
  ⟨List.nodup_nil, fun _ => iff_of_false (Finset.notMem_empty _) List.not_mem_nil,
    fun _ hk => absurd hk (Finset.notMem_empty _), Nat.zero_le _⟩

theorem drained_empty : Drained limit (empty : Window κ σ) := .inl rfl

/-- The first key of the queue is not in flight. -/
theorem Sound.head_notMem {item : κ × σ} {rest : List (κ × σ)} {queued inflight : Finset κ}
    (h : Sound limit ⟨item :: rest, queued, inflight⟩) : item.1 ∉ inflight :=
  h.disjoint item.1 ((h.queued item.1).mpr List.mem_cons_self)

variable [DecidableEq κ]

/-- Put an item at the end of the queue. -/
def push (item : κ × σ) (w : Window κ σ) : Window κ σ :=
  { w with queue := w.queue ++ [item], queued := insert item.1 w.queued }

/-- Forget that a key is in flight or queued. -/
def finish (k : κ) (w : Window κ σ) : Window κ σ :=
  { w with inflight := w.inflight.erase k, queued := w.queued.erase k }

section

variable (limit : Nat) (usable : κ × σ → Bool)

/-- Take items from the queue while fewer than `limit` keys are in flight, and
ask for those that are usable. -/
def pumpQueue : List (κ × σ) → Finset κ → Finset κ → Window κ σ × List (κ × σ)
  | [], queued, inflight => (⟨[], queued, inflight⟩, [])
  | item :: rest, queued, inflight =>
      if inflight.card < limit then
        if usable item then
          let pumped := pumpQueue rest (queued.erase item.1) (insert item.1 inflight)
          (pumped.1, item :: pumped.2)
        else pumpQueue rest (queued.erase item.1) inflight
      else (⟨item :: rest, queued, inflight⟩, [])

def pump (w : Window κ σ) : Window κ σ × List (κ × σ) :=
  pumpQueue limit usable w.queue w.queued w.inflight

end

variable {usable : κ × σ → Bool} {w : Window κ σ} {k : κ}

/-! ## Pumping -/

theorem pumpQueue_full {queue : List (κ × σ)} {queued inflight : Finset κ}
    (h : limit ≤ inflight.card) :
    pumpQueue limit usable queue queued inflight = (⟨queue, queued, inflight⟩, []) := by
  cases queue with
  | nil => rfl
  | cons item rest => rw [pumpQueue, if_neg (Nat.not_lt.mpr h)]

/-- Pumping changes nothing where nothing waits while there is room. -/
theorem Drained.pump (h : Drained limit w) : w.pump limit usable = (w, []) := by
  obtain ⟨queue, queued, inflight⟩ := w
  cases h with
  | inl hempty =>
      have hqueue : queue = [] := hempty
      rw [hqueue]
      rfl
  | inr hfull => exact pumpQueue_full hfull

theorem drained_pumpQueue : ∀ (queue : List (κ × σ)) (queued inflight : Finset κ),
    Drained limit (pumpQueue limit usable queue queued inflight).1
  | [], _, _ => .inl rfl
  | item :: rest, queued, inflight => by
      rw [pumpQueue]
      split
      · split
        · exact drained_pumpQueue rest _ _
        · exact drained_pumpQueue rest _ _
      · next hfull => exact .inr (Nat.not_lt.mp hfull)

theorem drained_pump : Drained limit (w.pump limit usable).1 := drained_pumpQueue _ _ _

/-- The window without the first item of its queue. -/
theorem Sound.tail {item : κ × σ} {rest : List (κ × σ)} {queued inflight : Finset κ}
    (h : Sound limit ⟨item :: rest, queued, inflight⟩) :
    Sound limit ⟨rest, queued.erase item.1, inflight⟩ := by
  have hnodup : item.1 ∉ rest.map Prod.fst ∧ (rest.map Prod.fst).Nodup := List.nodup_cons.mp h.nodup
  refine ⟨hnodup.2, fun k => ?_, fun k hk => h.disjoint k (Finset.mem_of_mem_erase hk), h.bounded⟩
  have hkey : k ∈ queued ↔ k = item.1 ∨ k ∈ rest.map Prod.fst := (h.queued k).trans List.mem_cons
  rw [Finset.mem_erase, hkey]
  constructor
  · rintro ⟨hne, heq | hrest⟩
    · exact absurd heq hne
    · exact hrest
  · intro hrest
    exact ⟨fun heq => hnodup.1 (heq ▸ hrest), .inr hrest⟩

/-- Asking for the first key of the queue. -/
theorem Sound.ask {item : κ × σ} {rest : List (κ × σ)} {queued inflight : Finset κ}
    (h : Sound limit ⟨item :: rest, queued, inflight⟩) (hroom : inflight.card < limit) :
    Sound limit ⟨rest, queued.erase item.1, insert item.1 inflight⟩ := by
  refine ⟨h.tail.nodup, h.tail.queued, fun k hk hmem => ?_, ?_⟩
  · rcases Finset.mem_insert.mp hmem with heq | hinflight
    · exact (Finset.ne_of_mem_erase hk) heq
    · exact h.tail.disjoint k hk hinflight
  · have hcard : (insert item.1 inflight).card = inflight.card + 1 :=
      Finset.card_insert_of_notMem h.head_notMem
    exact hcard.trans_le hroom

theorem sound_pumpQueue : ∀ {queue : List (κ × σ)} {queued inflight : Finset κ},
    Sound limit ⟨queue, queued, inflight⟩ →
      Sound limit (pumpQueue limit usable queue queued inflight).1
  | [], _, _, h => h
  | item :: rest, queued, inflight, h => by
      rw [pumpQueue]
      split
      · next hroom =>
          split
          · exact sound_pumpQueue (h.ask hroom)
          · exact sound_pumpQueue h.tail
      · exact h

theorem Sound.pump (h : Sound limit w) : Sound limit (w.pump limit usable).1 :=
  sound_pumpQueue h

/-- What is in flight after pumping was so before, or has been asked for. -/
theorem mem_inflight_pumpQueue : ∀ {queue : List (κ × σ)} {queued inflight : Finset κ},
    k ∈ (pumpQueue limit usable queue queued inflight).1.inflight ↔
      k ∈ inflight ∨ ∃ src, (k, src) ∈ (pumpQueue limit usable queue queued inflight).2
  | [], _, _ => ⟨.inl, fun h => h.elim id fun ⟨_, hsrc⟩ => absurd hsrc List.not_mem_nil⟩
  | item :: rest, queued, inflight => by
      rw [pumpQueue]
      split
      · split
        · dsimp only
          rw [mem_inflight_pumpQueue, Finset.mem_insert]
          constructor
          · rintro ((heq | hk) | ⟨src, hsrc⟩)
            · exact .inr ⟨item.2, by rw [heq]; exact List.mem_cons_self⟩
            · exact .inl hk
            · exact .inr ⟨src, List.mem_cons_of_mem _ hsrc⟩
          · rintro (hk | ⟨src, hsrc⟩)
            · exact .inl (.inr hk)
            · rcases List.mem_cons.mp hsrc with heq | hrest
              · exact .inl (.inl (congrArg Prod.fst heq))
              · exact .inr ⟨src, hrest⟩
        · exact mem_inflight_pumpQueue
      · exact ⟨.inl, fun h => h.elim id fun ⟨_, hsrc⟩ => absurd hsrc List.not_mem_nil⟩

theorem mem_inflight_pump : k ∈ (w.pump limit usable).1.inflight ↔
    k ∈ w.inflight ∨ ∃ src, (k, src) ∈ (w.pump limit usable).2 := mem_inflight_pumpQueue

/-- With room for one key the first usable item is asked for. -/
theorem asked_pumpQueue_one : ∀ {queue : List (κ × σ)} {queued inflight : Finset κ},
    Sound limit ⟨queue, queued, inflight⟩ → inflight.card + 1 = limit →
      (pumpQueue limit usable queue queued inflight).2 = (queue.find? usable).toList
  | [], _, _, _, _ => rfl
  | item :: rest, queued, inflight, h, hone => by
      have hroom : inflight.card < limit := hone ▸ Nat.lt_succ_self _
      rw [pumpQueue, if_pos hroom, List.find?_cons]
      split
      · next husable =>
          have hfull : limit ≤ (insert item.1 inflight).card := by
            rw [Finset.card_insert_of_notMem h.head_notMem, hone]
          rw [husable, pumpQueue_full hfull]
          rfl
      · next hunusable =>
          rw [Bool.eq_false_iff.mpr hunusable]
          exact asked_pumpQueue_one h.tail hone

/-! ## Pushing and finishing -/

/-- A usable item with a new key, pushed where nothing waits while there is
room: asked for at once if there is room. -/
theorem pump_push {item : κ × σ} (h : Drained limit w) (hkey : item.1 ∉ w.queued)
    (husable : usable item = true) : (w.push item).pump limit usable =
      if w.inflight.card < limit then
        ({ w with inflight := insert item.1 w.inflight }, [item])
      else (w.push item, []) := by
  split
  · next hroom =>
      have hempty : w.queue = [] := h.resolve_right (Nat.not_le.mpr hroom)
      rw [Window.pump, push, hempty, List.nil_append]
      dsimp only
      rw [pumpQueue, if_pos hroom, if_pos husable, pumpQueue, Finset.erase_insert hkey, ← hempty]
  · next hfull => exact Drained.pump (.inr (Nat.not_lt.mp hfull))

theorem Sound.push {item : κ × σ} (h : Sound limit w) (hqueued : item.1 ∉ w.queued)
    (hinflight : item.1 ∉ w.inflight) : Sound limit (w.push item) := by
  have hkeys : (w.push item).keys = w.keys ++ [item.1] := List.map_append
  refine ⟨?_, fun k => ?_, fun k hk => ?_, h.bounded⟩
  · rw [hkeys, ← List.concat_eq_append]
    exact h.nodup.concat fun hmem => hqueued ((h.queued _).mpr hmem)
  · rw [hkeys, List.mem_append, List.mem_singleton, ← h.queued k]
    exact Finset.mem_insert.trans or_comm
  · rcases Finset.mem_insert.mp hk with heq | hold
    · rw [heq]
      exact hinflight
    · exact h.disjoint k hold

theorem Sound.insert_inflight (h : Sound limit w) (hqueued : k ∉ w.queued)
    (hinflight : k ∉ w.inflight) (hroom : w.inflight.card < limit) :
    Sound limit { w with inflight := insert k w.inflight } := by
  refine ⟨h.nodup, h.queued, fun x hx hmem => ?_, ?_⟩
  · rcases Finset.mem_insert.mp hmem with heq | hold
    · exact hqueued (heq ▸ hx)
    · exact h.disjoint x hx hold
  · have hcard : (insert k w.inflight).card = w.inflight.card + 1 :=
      Finset.card_insert_of_notMem hinflight
    exact hcard.trans_le hroom

/-- Finishing a key that is not in the queue. -/
theorem Sound.finish (h : Sound limit w) (hk : k ∉ w.keys) : Sound limit (w.finish k) := by
  refine ⟨h.nodup, fun x => ?_, fun x hx hmem => ?_, ?_⟩
  · refine Finset.mem_erase.trans ((and_iff_right_of_imp ?_).trans (h.queued x))
    intro hx heq
    exact hk (heq ▸ (h.queued x).mp hx)
  · exact h.disjoint x (Finset.mem_of_mem_erase hx) (Finset.mem_of_mem_erase hmem)
  · exact (Finset.card_le_card (Finset.erase_subset k w.inflight)).trans h.bounded

/-- Finishing a key of the queue leaves it there without its mark. -/
theorem not_sound_finish (hk : k ∈ w.keys) : ¬ Sound limit (w.finish k) := fun h =>
  Finset.notMem_erase k w.queued ((h.queued k).mpr hk)

/-- Finishing a key that is not known. -/
theorem finish_of_notMem (hqueued : k ∉ w.queued) (hinflight : k ∉ w.inflight) :
    w.finish k = w := by
  rw [Window.finish, Finset.erase_eq_of_notMem hqueued, Finset.erase_eq_of_notMem hinflight]

/-- What is asked for after a key in flight has been finished. -/
theorem asked_pump_finish (h : Sound limit w) (hdrained : Drained limit w) (hk : k ∈ w.inflight) :
    ((w.finish k).pump limit usable).2 = (w.queue.find? usable).toList := by
  have hkeys : k ∉ w.keys := fun hmem => h.disjoint k ((h.queued k).mpr hmem) hk
  cases hdrained with
  | inl hempty =>
      have hqueue : (w.finish k).queue = [] := hempty
      rw [(Drained.pump (.inl hqueue)), hempty]
      rfl
  | inr hfull =>
      have hone : (w.inflight.erase k).card + 1 = limit :=
        (Finset.card_erase_add_one hk).trans (le_antisymm h.bounded hfull)
      exact asked_pumpQueue_one (h.finish hkeys) hone

/-! ## Who has been asked -/

/-- One of the sources has been asked for the key. -/
def Covered (sources : Finset σ) (asked : List (κ × σ)) (k : κ) : Prop :=
  ∃ src ∈ sources, (k, src) ∈ asked

omit [DecidableEq κ] in
theorem covered_append {sources : Finset σ} {asked sent : List (κ × σ)} :
    Covered sources (asked ++ sent) k ↔ Covered sources asked k ∨ Covered sources sent k := by
  constructor
  · rintro ⟨src, hsrc, hmem⟩
    exact (List.mem_append.mp hmem).imp (⟨src, hsrc, ·⟩) (⟨src, hsrc, ·⟩)
  · rintro (⟨src, hsrc, hmem⟩ | ⟨src, hsrc, hmem⟩)
    · exact ⟨src, hsrc, List.mem_append_left _ hmem⟩
    · exact ⟨src, hsrc, List.mem_append_right _ hmem⟩

omit [DecidableEq κ] in
/-- When new keys have been asked for, each once, all keys in flight are
covered exactly if the old ones were, and each new one is covered by its own
source or was so before. -/
theorem covered_iff {sources : Finset σ} {asked sent : List (κ × σ)} {inflight after : Finset κ}
    (hafter : ∀ k, k ∈ after ↔ k ∈ inflight ∨ ∃ src, (k, src) ∈ sent)
    (hnew : ∀ item ∈ sent, item.1 ∉ inflight)
    (honce : ∀ a ∈ sent, ∀ b ∈ sent, a.1 = b.1 → a = b) :
    (∀ k ∈ after, Covered sources (asked ++ sent) k) ↔
      (∀ k ∈ inflight, Covered sources asked k) ∧
        ∀ item ∈ sent, item.2 ∈ sources ∨ Covered sources asked item.1 := by
  constructor
  · intro hall
    refine ⟨fun k hk => ?_, fun item hitem => ?_⟩
    · refine (covered_append.mp (hall k ((hafter k).mpr (.inl hk)))).resolve_right ?_
      rintro ⟨src, -, hmem⟩
      exact hnew (k, src) hmem hk
    · rcases covered_append.mp (hall item.1 ((hafter _).mpr (.inr ⟨item.2, hitem⟩))) with
        hold | ⟨src, hsrc, hmem⟩
      · exact .inr hold
      · have hsame : (item.1, src) = item := honce _ hmem _ hitem rfl
        exact .inl (hsame ▸ hsrc)
  · rintro ⟨hold, hsent⟩ k hk
    rw [covered_append]
    rcases (hafter k).mp hk with hinflight | ⟨src, hmem⟩
    · exact .inl (hold k hinflight)
    · rcases hsent (k, src) hmem with hsrc | hcovered
      · exact .inr ⟨src, hsrc, hmem⟩
      · exact .inl hcovered

end Window

end Cryptex
