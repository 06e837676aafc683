import Cryptex.Lib.FinMap
import Mathlib.Algebra.BigOperators.Group.List.Basic
import Mathlib.Tactic.Linarith

/-!
# Two ways to add up a ledger

A ledger of coins is a list of transfers. Each lists the coins it takes,
takes them out (unless it only creates) and makes new ones. Its balance is
the worth of the coins that are left. Its history adds up, for every
transfer, what it makes less what it lists, where a listed coin is looked up
in a table of all coins that were made before.

The two differ by what is replaced and by what is listed without being taken
out (`nets_eq`); and, where the transfers of a second part of the history
come in another order than that of the balance, by the coins that are listed
before they are made (`nets_append`).
-/

namespace CoinReplay

variable {K V : Type*} [DecidableEq K]

/-! ## Lists of coins -/

/-- The members of a list that come again later in it. -/
def repeats : List K → List K
  | [] => []
  | k :: ks => if k ∈ ks then k :: repeats ks else repeats ks

theorem mem_of_mem_repeats {k : K} : ∀ {ks : List K}, k ∈ repeats ks → k ∈ ks
  | [], h => h
  | k' :: ks, h => by
      rw [repeats] at h
      split at h
      · rcases List.mem_cons.mp h with rfl | hmem
        · exact List.mem_cons_self
        · exact List.mem_cons_of_mem _ (mem_of_mem_repeats hmem)
      · exact List.mem_cons_of_mem _ (mem_of_mem_repeats h)

/-- A list is its distinct members and those that come again. -/
theorem sum_map_dedup_add (f : K → Int) : ∀ ks : List K,
    (ks.dedup.map f).sum + ((repeats ks).map f).sum = (ks.map f).sum
  | [] => rfl
  | k :: ks => by
      have ih := sum_map_dedup_add f ks
      by_cases hmem : k ∈ ks
      · rw [List.dedup_cons_of_mem hmem, repeats, if_pos hmem, List.map_cons, List.map_cons,
          List.sum_cons, List.sum_cons]
        linarith
      · rw [List.dedup_cons_of_notMem hmem, repeats, if_neg hmem, List.map_cons, List.map_cons,
          List.sum_cons, List.sum_cons]
        linarith

/-! ## Maps of coins -/

def eraseAll (m : FinMap K V) (ks : List K) : FinMap K V := ks.foldl (fun m k => m.erase k) m

/-- Every coin of the one is in the other. -/
def PartOf (part whole : FinMap K V) : Prop := ∀ k v, part.lookup k = some v → whole.lookup k = some v

theorem lookup_eraseAll_of_notMem {k : K} : ∀ {ks : List K} {m : FinMap K V}, k ∉ ks →
    (eraseAll m ks).lookup k = m.lookup k
  | [], _, _ => rfl
  | k' :: ks, m, h => by
      rw [List.mem_cons, not_or] at h
      have ih : (eraseAll (m.erase k') ks).lookup k = (m.erase k').lookup k :=
        lookup_eraseAll_of_notMem h.2
      rw [eraseAll, List.foldl_cons]
      exact ih.trans (Finmap.lookup_erase_ne h.1)

theorem eraseAll_partOf : ∀ (ks : List K) (m : FinMap K V), PartOf (eraseAll m ks) m
  | [], _, _, _, h => h
  | k' :: ks, m, k, v, h => by
      have ih := eraseAll_partOf ks (m.erase k') k v h
      rw [FinMap.lookup_erase_ite] at ih
      split at ih
      · cases ih
      · exact ih

/-- What is written shadows what was there. -/
theorem lookup_insertAll_or (k : K) : ∀ (l : List (K × V)) (m : FinMap K V),
    (FinMap.insertAll m l).lookup k = ((FinMap.insertAll ∅ l).lookup k).or (m.lookup k)
  | [], m => by rw [FinMap.insertAll_nil, FinMap.insertAll_nil, Finmap.lookup_empty, Option.none_or]
  | e :: l, m => by
      rw [FinMap.insertAll_cons, FinMap.insertAll_cons, lookup_insertAll_or k l,
        lookup_insertAll_or k l (Finmap.insert e.1 e.2 ∅), Option.or_assoc]
      congr 1
      rw [FinMap.lookup_insert_ite, FinMap.lookup_insert_ite]
      split
      · rfl
      · rw [Finmap.lookup_empty, Option.none_or]

/-! ## Transfers -/

structure Transfer (K V : Type*) where
  listed : List K
  removes : Bool
  makes : List (K × V)

namespace Transfer

/-- What is left of the coins when the listed ones are taken out. -/
def left (t : Transfer K V) (m : FinMap K V) : FinMap K V :=
  if t.removes then eraseAll m t.listed else m

/-- The coins after the transfer. -/
def apply (t : Transfer K V) (m : FinMap K V) : FinMap K V := (t.left m).insertAll t.makes

/-- The table of all coins after the transfer. -/
def record (t : Transfer K V) (seen : FinMap K V) : FinMap K V := seen.insertAll t.makes

/-- The coins that are listed without being taken out: all of a transfer that
only creates, and those that are listed again. -/
def idle (t : Transfer K V) : List K := if t.removes then repeats t.listed else t.listed

/-- The listed coins are there. -/
def Applies (t : Transfer K V) (m : FinMap K V) : Prop :=
  t.removes = true → ∀ k ∈ t.listed, ∃ v, m.lookup k = some v

/-- The last coin that the transfer makes under a key. -/
def coin (t : Transfer K V) (k : K) : Option V := (FinMap.insertAll ∅ t.makes).lookup k

theorem lookup_record (t : Transfer K V) (seen : FinMap K V) (k : K) :
    (t.record seen).lookup k = (t.coin k).or (seen.lookup k) :=
  lookup_insertAll_or k t.makes seen

theorem lookup_apply (t : Transfer K V) (m : FinMap K V) (k : K) :
    (t.apply m).lookup k = (t.coin k).or ((t.left m).lookup k) :=
  lookup_insertAll_or k t.makes (t.left m)

theorem left_partOf (t : Transfer K V) (m : FinMap K V) : PartOf (t.left m) m := by
  rw [left]
  split
  · exact eraseAll_partOf _ _
  · exact fun _ _ h => h

theorem apply_partOf {t : Transfer K V} {m seen : FinMap K V} (h : PartOf m seen) :
    PartOf (t.apply m) (t.record seen) := by
  intro k v hk
  rw [lookup_apply] at hk
  rw [lookup_record]
  cases hcoin : t.coin k with
  | some v' =>
      rw [hcoin, Option.some_or] at hk
      rw [Option.some_or, hk]
  | none =>
      rw [hcoin, Option.none_or] at hk
      rw [Option.none_or]
      exact h k v (t.left_partOf m k v hk)

end Transfer

open Transfer

/-- The coins after a list of transfers. -/
def applyAll (ts : List (Transfer K V)) (m : FinMap K V) : FinMap K V :=
  ts.foldl (fun m t => t.apply m) m

/-- All coins that a list of transfers makes. -/
def recordAll (ts : List (Transfer K V)) (seen : FinMap K V) : FinMap K V :=
  ts.foldl (fun seen t => t.record seen) seen

@[simp] theorem applyAll_cons (t : Transfer K V) (ts : List (Transfer K V)) (m : FinMap K V) :
    applyAll (t :: ts) m = applyAll ts (t.apply m) := rfl

@[simp] theorem recordAll_cons (t : Transfer K V) (ts : List (Transfer K V)) (seen : FinMap K V) :
    recordAll (t :: ts) seen = recordAll ts (t.record seen) := rfl

/-- Every transfer finds its coins. -/
def AllApply : List (Transfer K V) → FinMap K V → Prop
  | [], _ => True
  | t :: ts, m => t.Applies m ∧ AllApply ts (t.apply m)

theorem applyAll_append (ts us : List (Transfer K V)) (m : FinMap K V) :
    applyAll (ts ++ us) m = applyAll us (applyAll ts m) := List.foldl_append

theorem recordAll_append (ts us : List (Transfer K V)) (seen : FinMap K V) :
    recordAll (ts ++ us) seen = recordAll us (recordAll ts seen) := List.foldl_append

theorem allApply_append : ∀ {ts us : List (Transfer K V)} {m : FinMap K V},
    AllApply (ts ++ us) m ↔ AllApply ts m ∧ AllApply us (applyAll ts m)
  | [], _, _ => ⟨fun h => ⟨trivial, h⟩, And.right⟩
  | t :: ts, us, m => by
      rw [List.cons_append, AllApply, AllApply, applyAll_cons, allApply_append, and_assoc]

theorem applyAll_partOf : ∀ {ts : List (Transfer K V)} {m seen : FinMap K V}, PartOf m seen →
    PartOf (applyAll ts m) (recordAll ts seen)
  | [], _, _, h => h
  | t :: ts, m, seen, h => by
      rw [applyAll_cons, recordAll_cons]
      exact applyAll_partOf (apply_partOf h)

/-! ## Worth -/

section

variable (worth : V → Int)

def worthAt (m : FinMap K V) (k : K) : Int := (m.lookup k).elim 0 worth

def worthOf (m : FinMap K V) (ks : List K) : Int := (ks.map (worthAt worth m)).sum

/-- The worth of what a list of entries takes the place of. -/
def replacement : List (K × V) → FinMap K V → Int
  | [], _ => 0
  | e :: es, m => worthAt worth m e.1 + replacement es (m.insert e.1 e.2)

/-- The worth of what a transfer makes. -/
def Transfer.made (t : Transfer K V) : Int := (t.makes.map fun e => worth e.2).sum

/-- What the history shows of a transfer. -/
def Transfer.net (seen : FinMap K V) (t : Transfer K V) : Int := t.made worth - worthOf worth seen t.listed

/-- The sum of the history. -/
def nets : List (Transfer K V) → FinMap K V → Int
  | [], _ => 0
  | t :: ts, seen => t.net worth seen + nets ts (t.record seen)

/-- The worth of what was there when the transfers made it. -/
def replacements : List (Transfer K V) → FinMap K V → Int
  | [], _ => 0
  | t :: ts, m => replacement worth t.makes (t.left m) + replacements ts (t.apply m)

/-- The worth of what the transfers list without taking it out. -/
def idles : List (Transfer K V) → FinMap K V → Int
  | [], _ => 0
  | t :: ts, seen => worthOf worth seen t.idle + idles ts (t.record seen)

/-- The worth, in a table of all coins, of what the transfers list before it
was made. -/
def lates (table : FinMap K V) : List (Transfer K V) → FinMap K V → Int
  | [], _ => 0
  | t :: ts, seen =>
      worthOf worth table (t.listed.filter fun k => (seen.lookup k).isNone) +
        lates table ts (t.record seen)

end

variable {worth : V → Int}

theorem worthAt_of_lookup {m : FinMap K V} {k : K} {v : V} (h : m.lookup k = some v) :
    worthAt worth m k = worth v := by
  rw [worthAt, h]
  rfl

theorem worthOf_congr {m m' : FinMap K V} {ks : List K}
    (h : ∀ k ∈ ks, worthAt worth m k = worthAt worth m' k) : worthOf worth m ks = worthOf worth m' ks := by
  rw [worthOf, worthOf, List.map_congr_left h]

theorem worthOf_cons (m : FinMap K V) (k : K) (ks : List K) :
    worthOf worth m (k :: ks) = worthAt worth m k + worthOf worth m ks := by
  rw [worthOf, List.map_cons, List.sum_cons]
  rfl

theorem worthOf_dedup (m : FinMap K V) (ks : List K) :
    worthOf worth m ks.dedup = worthOf worth m ks - worthOf worth m (repeats ks) := by
  have hsum := sum_map_dedup_add (worthAt worth m) ks
  rw [worthOf, worthOf, worthOf]
  linarith

theorem sumBy_erase_worthAt (m : FinMap K V) (k : K) :
    FinMap.sumBy worth (m.erase k) = FinMap.sumBy worth m - worthAt worth m k := by
  cases hk : m.lookup k with
  | none =>
      have hsame : m.erase k = m := Finmap.ext_lookup fun k' => by
        rw [FinMap.lookup_erase_ite]
        split
        · next heq => rw [heq, hk]
        · rfl
      rw [hsame, worthAt, hk, Option.elim_none, sub_zero]
  | some v => rw [FinMap.sumBy_erase worth hk, worthAt_of_lookup hk]

theorem sumBy_eraseAll : ∀ (ks : List K) (m : FinMap K V),
    FinMap.sumBy worth (eraseAll m ks) = FinMap.sumBy worth m - worthOf worth m ks.dedup
  | [], m => by
      rw [List.dedup_nil, worthOf, List.map_nil, List.sum_nil, sub_zero]
      rfl
  | k :: ks, m => by
      have ih := sumBy_eraseAll ks (m.erase k)
      rw [sumBy_erase_worthAt] at ih
      rw [eraseAll, List.foldl_cons]
      rw [eraseAll] at ih
      rw [ih]
      have hself : worthAt worth (m.erase k) k = 0 := by
        rw [worthAt, Finmap.lookup_erase]
        rfl
      have hother : ∀ k' ≠ k, worthAt worth (m.erase k) k' = worthAt worth m k' := fun k' hne => by
        rw [worthAt, worthAt, Finmap.lookup_erase_ne hne]
      by_cases hmem : k ∈ ks
      · -- the coin comes again later, where nothing is left of it
        have hsplit : worthOf worth m ks.dedup
            = worthOf worth (m.erase k) ks.dedup + worthAt worth m k := by
          have hperm := List.perm_cons_erase (List.mem_dedup.mpr hmem)
          have herase : ∀ k' ∈ ks.dedup.erase k, k' ≠ k := fun k' hk' heq =>
            (List.nodup_dedup ks).not_mem_erase (heq ▸ hk')
          have hrest : worthOf worth m (ks.dedup.erase k)
              = worthOf worth (m.erase k) (ks.dedup.erase k) :=
            worthOf_congr fun k' hk' => (hother k' (herase k' hk')).symm
          have hleft : worthOf worth m ks.dedup = worthOf worth m (k :: ks.dedup.erase k) :=
            (hperm.map _).sum_eq
          have hright : worthOf worth (m.erase k) ks.dedup
              = worthOf worth (m.erase k) (k :: ks.dedup.erase k) := (hperm.map _).sum_eq
          rw [hleft, hright, worthOf_cons, worthOf_cons, hself, hrest]
          linarith
        rw [List.dedup_cons_of_mem hmem, hsplit]
        linarith
      · have hrest : worthOf worth (m.erase k) ks.dedup = worthOf worth m ks.dedup :=
          worthOf_congr fun k' hk' => hother k' fun heq => hmem (heq ▸ List.mem_dedup.mp hk')
        rw [List.dedup_cons_of_notMem hmem, worthOf_cons, hrest]
        linarith

theorem sumBy_insertAll : ∀ (es : List (K × V)) (m : FinMap K V),
    FinMap.sumBy worth (m.insertAll es)
      = FinMap.sumBy worth m + (es.map fun e => worth e.2).sum - replacement worth es m
  | [], m => by
      rw [FinMap.insertAll_nil, replacement, List.map_nil, List.sum_nil]
      linarith
  | e :: es, m => by
      have hinsert := FinMap.sumBy_insert worth m e.1 e.2
      rw [FinMap.insertAll_cons, sumBy_insertAll es, hinsert, replacement, List.map_cons,
        List.sum_cons, worthAt]
      linarith

/-- What one transfer does to the balance. -/
theorem Transfer.sumBy_apply (t : Transfer K V) (m : FinMap K V) :
    FinMap.sumBy worth (t.apply m) = FinMap.sumBy worth m + t.made worth
      - (worthOf worth m t.listed - worthOf worth m t.idle) - replacement worth t.makes (t.left m) := by
  have hleft : FinMap.sumBy worth (t.left m)
      = FinMap.sumBy worth m - (worthOf worth m t.listed - worthOf worth m t.idle) := by
    rw [left, idle]
    split
    · rw [sumBy_eraseAll, worthOf_dedup]
    · linarith
  rw [apply, sumBy_insertAll, hleft, made]
  linarith

/-! ## In one order -/

/-- What is listed and taken out is looked up alike in the coins and in a
table of which they are a part. -/
theorem Transfer.Applies.worthOf_listed {t : Transfer K V} {m seen : FinMap K V} (h : t.Applies m)
    (hpart : ∀ k v, m.lookup k = some v → worthAt worth seen k = worth v) :
    worthOf worth m t.listed - worthOf worth m t.idle
      = worthOf worth seen t.listed - worthOf worth seen t.idle := by
  rw [idle]
  split
  · next hremoves =>
      have hsame : ∀ k ∈ t.listed, worthAt worth m k = worthAt worth seen k := fun k hk => by
        obtain ⟨v, hv⟩ := h hremoves k hk
        rw [worthAt_of_lookup hv, hpart k v hv]
      rw [worthOf_congr hsame, worthOf_congr fun k hk => hsame k (mem_of_mem_repeats hk)]
  · rw [sub_self, sub_self]

/-- The history of transfers that find their coins, against the balance. -/
theorem nets_eq : ∀ {ts : List (Transfer K V)} {m seen : FinMap K V}, PartOf m seen → AllApply ts m →
    nets worth ts seen = FinMap.sumBy worth (applyAll ts m) - FinMap.sumBy worth m
      + replacements worth ts m - idles worth ts seen
  | [], m, _, _, _ => by
      rw [nets, replacements, idles, applyAll, List.foldl_nil]
      linarith
  | t :: ts, m, seen, hpart, h => by
      have hstep : FinMap.sumBy worth (t.apply m) = FinMap.sumBy worth m + t.made worth
        - (worthOf worth m t.listed - worthOf worth m t.idle)
          - replacement worth t.makes (t.left m) := t.sumBy_apply m
      have hlisted : worthOf worth m t.listed - worthOf worth m t.idle
          = worthOf worth seen t.listed - worthOf worth seen t.idle :=
        h.1.worthOf_listed fun k v hv => worthAt_of_lookup (hpart k v hv)
      have ih : nets worth ts (t.record seen) = FinMap.sumBy worth (applyAll ts (t.apply m))
          - FinMap.sumBy worth (t.apply m) + replacements worth ts (t.apply m)
          - idles worth ts (t.record seen) := nets_eq (apply_partOf hpart) h.2
      rw [nets, ih, replacements, idles, Transfer.net, applyAll_cons]
      linarith

/-! ## In two orders -/

section

variable {table : FinMap K V}

/-- The table has the worth of every coin of a map. -/
def Rates (worth : V → Int) (table m : FinMap K V) : Prop :=
  ∀ k v, m.lookup k = some v → worthAt worth table k = worth v

/-- The table has the worth of every coin that a transfer makes. -/
def Transfer.RatedBy (worth : V → Int) (table : FinMap K V) (t : Transfer K V) : Prop :=
  ∀ k v, t.coin k = some v → worthAt worth table k = worth v

theorem Rates.record {t : Transfer K V} {seen : FinMap K V} (h : Rates worth table seen)
    (ht : t.RatedBy worth table) : Rates worth table (t.record seen) := by
  intro k v hk
  rw [lookup_record] at hk
  cases hcoin : t.coin k with
  | some v' =>
      rw [hcoin, Option.some_or] at hk
      rw [← Option.some.inj hk]
      exact ht k v' hcoin
  | none =>
      rw [hcoin, Option.none_or] at hk
      exact h k v hk

theorem Rates.apply {t : Transfer K V} {m : FinMap K V} (h : Rates worth table m)
    (ht : t.RatedBy worth table) : Rates worth table (t.apply m) := fun k v hk =>
  h.record ht k v (apply_partOf (fun _ _ h => h) k v hk)

/-- What is listed is worth what the table says, except for what is not made
yet. -/
theorem Rates.worthOf_eq {seen : FinMap K V} (h : Rates worth table seen) : ∀ ks : List K,
    worthOf worth seen ks = worthOf worth table ks
      - worthOf worth table (ks.filter fun k => (seen.lookup k).isNone)
  | [] => by
      rw [List.filter_nil, worthOf, worthOf, List.map_nil, List.map_nil, List.sum_nil, sub_self]
  | k :: ks => by
      have ih := h.worthOf_eq ks
      rw [worthOf_cons, worthOf_cons, ih, List.filter_cons]
      cases hk : seen.lookup k with
      | none =>
          have hzero : worthAt worth seen k = 0 := by
            rw [worthAt, hk]
            rfl
          rw [Option.isNone_none, if_pos rfl, worthOf_cons, hzero]
          linarith
      | some v =>
          rw [Option.isNone_some, if_neg Bool.false_ne_true, worthAt_of_lookup hk, h k v hk]
          linarith

theorem nets_of_rates : ∀ {ts : List (Transfer K V)} {seen : FinMap K V}, Rates worth table seen →
    (∀ t ∈ ts, t.RatedBy worth table) →
      nets worth ts seen = (ts.map fun t => t.made worth - worthOf worth table t.listed).sum
        + lates worth table ts seen
  | [], _, _, _ => rfl
  | t :: ts, seen, h, ht => by
      have ih := nets_of_rates (h.record (ht t List.mem_cons_self)) fun t' ht' =>
        ht t' (List.mem_cons_of_mem _ ht')
      rw [nets, ih, lates, Transfer.net, h.worthOf_eq, List.map_cons, List.sum_cons]
      linarith

theorem sumBy_applyAll_of_rates : ∀ {ts : List (Transfer K V)} {m : FinMap K V},
    Rates worth table m → (∀ t ∈ ts, t.RatedBy worth table) → AllApply ts m →
      FinMap.sumBy worth (applyAll ts m) = FinMap.sumBy worth m
        + (ts.map fun t => t.made worth
          - (worthOf worth table t.listed - worthOf worth table t.idle)).sum
        - replacements worth ts m
  | [], m, _, _, _ => by
      rw [applyAll, List.foldl_nil, List.map_nil, List.sum_nil, replacements]
      linarith
  | t :: ts, m, h, ht, happly => by
      have ih := sumBy_applyAll_of_rates (h.apply (ht t List.mem_cons_self))
        (fun t' ht' => ht t' (List.mem_cons_of_mem _ ht')) happly.2
      rw [applyAll_cons, ih, t.sumBy_apply, happly.1.worthOf_listed h,
        replacements, List.map_cons, List.sum_cons]
      linarith

end

theorem nets_append_list : ∀ (ts us : List (Transfer K V)) (seen : FinMap K V),
    nets worth (ts ++ us) seen = nets worth ts seen + nets worth us (recordAll ts seen)
  | [], us, seen => by
      rw [List.nil_append, nets, zero_add]
      rfl
  | t :: ts, us, seen => by
      rw [List.cons_append, nets, nets, nets_append_list ts us, add_assoc]
      rfl

theorem lookup_recordAll {k : K} {v : V} : ∀ {ts : List (Transfer K V)} {seen : FinMap K V},
    (recordAll ts seen).lookup k = some v → (∃ t ∈ ts, t.coin k = some v) ∨ seen.lookup k = some v
  | [], _, h => .inr h
  | t :: ts, seen, h => by
      rw [recordAll_cons] at h
      rcases lookup_recordAll h with ⟨t', ht', hcoin⟩ | hk
      · exact .inl ⟨t', List.mem_cons_of_mem _ ht', hcoin⟩
      · rw [lookup_record] at hk
        cases hcoin : t.coin k with
        | some v' =>
            rw [hcoin, Option.some_or] at hk
            exact .inl ⟨t, List.mem_cons_self, hcoin.trans hk⟩
        | none =>
            rw [hcoin, Option.none_or] at hk
            exact .inr hk

/-- A coin that was made once is in the table. -/
theorem recordAll_ne_none {k : K} : ∀ {ts : List (Transfer K V)} {seen : FinMap K V},
    ((∃ t ∈ ts, t.coin k ≠ none) ∨ seen.lookup k ≠ none) → (recordAll ts seen).lookup k ≠ none
  | [], _, h => h.resolve_left fun ⟨_, ht, _⟩ => List.not_mem_nil ht
  | t :: ts, seen, h => by
      rw [recordAll_cons]
      refine recordAll_ne_none ?_
      have hrecord : t.coin k ≠ none ∨ seen.lookup k ≠ none → (t.record seen).lookup k ≠ none := by
        rw [lookup_record, ne_eq, ne_eq, ne_eq, Option.or_eq_none_iff]
        tauto
      rcases h with ⟨t', ht', hcoin⟩ | hk
      · rcases List.mem_cons.mp ht' with rfl | hmem
        · exact .inr (hrecord (.inl hcoin))
        · exact .inl ⟨t', hmem, hcoin⟩
      · exact .inr (hrecord (.inr hk))

/-- Wherever a coin is made, it has the same worth. -/
def OneWorth (worth : V → Int) (ts : List (Transfer K V)) : Prop :=
  ∀ t ∈ ts, ∀ t' ∈ ts, ∀ k v v', t.coin k = some v → t'.coin k = some v' → worth v = worth v'

theorem OneWorth.ratedBy {ts : List (Transfer K V)} (h : OneWorth worth ts) {t : Transfer K V}
    (ht : t ∈ ts) : t.RatedBy worth (recordAll ts ∅) := by
  intro k v hcoin
  have hne : t.coin k ≠ none := by rw [hcoin]; exact Option.some_ne_none v
  obtain ⟨v', hv'⟩ := Option.ne_none_iff_exists'.mp
    (recordAll_ne_none (.inl ⟨t, ht, hne⟩) : (recordAll ts ∅).lookup k ≠ none)
  rcases lookup_recordAll hv' with ⟨t', ht', hcoin'⟩ | hempty
  · rw [worthAt_of_lookup hv']
    exact h t' ht' t ht k v' v hcoin' hcoin
  · rw [Finmap.lookup_empty] at hempty
    cases hempty

/-- The history of transfers in one order, the last of which find their coins
in another, against the balance. -/
theorem nets_append {ts us us' : List (Transfer K V)} (hworth : OneWorth worth (ts ++ us))
    (happly : AllApply ts ∅) (hperm : us'.Perm us) (happly' : AllApply us' (applyAll ts ∅)) :
    nets worth (ts ++ us) ∅ = FinMap.sumBy worth (applyAll us' (applyAll ts ∅))
      + (replacements worth ts ∅ + replacements worth us' (applyAll ts ∅)
        + lates worth (recordAll (ts ++ us) ∅) us (recordAll ts ∅))
      - (idles worth ts ∅ + (us.map fun t => worthOf worth (recordAll (ts ++ us) ∅) t.idle).sum) := by
  have hrated : ∀ t ∈ us, t.RatedBy worth (recordAll (ts ++ us) ∅) := fun t ht =>
    hworth.ratedBy (List.mem_append_right ts ht)
  have hseen : Rates worth (recordAll (ts ++ us) ∅) (recordAll ts ∅) := fun k v hk => by
    rcases lookup_recordAll hk with ⟨t, ht, hcoin⟩ | hempty
    · exact hworth.ratedBy (List.mem_append_left us ht) k v hcoin
    · rw [Finmap.lookup_empty] at hempty
      cases hempty
  have hcoins : Rates worth (recordAll (ts ++ us) ∅) (applyAll ts ∅) := fun k v hk =>
    hseen k v (applyAll_partOf (fun _ _ h => h) k v hk)
  have hfirst : nets worth ts ∅ = FinMap.sumBy worth (applyAll ts ∅) - FinMap.sumBy worth ∅
      + replacements worth ts ∅ - idles worth ts ∅ := nets_eq (fun _ _ h => h) happly
  have hlast := nets_of_rates hseen hrated
  have hbalance := sumBy_applyAll_of_rates hcoins (fun t ht => hrated t (hperm.mem_iff.mp ht)) happly'
  rw [(hperm.map _).sum_eq] at hbalance
  have hsplit : (us.map fun t => t.made worth - (worthOf worth (recordAll (ts ++ us) ∅) t.listed
      - worthOf worth (recordAll (ts ++ us) ∅) t.idle)).sum
      = (us.map fun t => t.made worth - worthOf worth (recordAll (ts ++ us) ∅) t.listed).sum
        + (us.map fun t => worthOf worth (recordAll (ts ++ us) ∅) t.idle).sum := by
    rw [← List.sum_map_add]
    exact congrArg List.sum (List.map_congr_left fun t _ => by linarith)
  rw [FinMap.sumBy_empty] at hfirst
  rw [nets_append_list, hfirst, hlast, hbalance, hsplit]
  linarith

/-- The sum of a map along a traversal. -/
theorem sumBy_visit (order : FinMap.VisitOrder K V) (m : FinMap K V) :
    FinMap.sumBy worth m = ((order.visit m).map fun e => worth e.2).sum := by
  have hkeys : ∀ k, k ∈ (order.visit m).map Prod.fst ↔ ∃ v, m.lookup k = some v := fun k => by
    rw [List.mem_map]
    constructor
    · rintro ⟨e, he, rfl⟩
      exact ⟨e.2, (order.mem_visit m e.1 e.2).mp he⟩
    · rintro ⟨v, hv⟩
      exact ⟨(k, v), (order.mem_visit m k v).mpr hv, rfl⟩
  rw [FinMap.sumBy_eq_sum worth (order.nodup_keys m) hkeys, List.map_map]
  refine congrArg List.sum (List.map_congr_left fun e he => ?_)
  rw [Function.comp_apply, (order.mem_visit m e.1 e.2).mp he, Option.elim_some]

end CoinReplay
