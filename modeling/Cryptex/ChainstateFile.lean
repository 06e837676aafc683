import Cryptex.Utxo
import Cryptex.WalletFile

/-!
# The chainstate file

`flush_chainstate` and `load_chainstate` of `utxo.cpp`, byte by byte. The
loader allocates what the file asks for and decodes every record before it
compares the checksum; which allocations succeed is a parameter.
-/

namespace Cryptex

open Codec

/-! ## CRC-32 -/

/-- One round of the inner loop of `crc32_update`. -/
def crc32Bit (crc : UInt32) : UInt32 := (crc >>> 1) ^^^ (0xEDB88320 &&& (0 - (crc &&& 1)))

def crc32Byte (crc : UInt32) (byte : UInt8) : UInt32 :=
  (List.range 8).foldl (fun crc _ => crc32Bit crc) (crc ^^^ byte.toUInt32)

def crc32Update (crc : UInt32) (data : Bytes) : UInt32 := data.foldl crc32Byte crc

def crc32Finalize (crc : UInt32) : UInt32 := crc ^^^ 0xFFFFFFFF

theorem crc32Update_append (crc : UInt32) (data data' : Bytes) :
    crc32Update crc (data ++ data') = crc32Update (crc32Update crc data) data' :=
  List.foldl_append

/-- The check value of the code. -/
example : crc32Finalize (crc32Update 0xFFFFFFFF [49, 50, 51, 52, 53, 54, 55, 56, 57]) =
    0xCBF43926 := by decide +kernel

namespace Chainstate

/-! ## The layout of the file -/

/-- `CHAINSTATE_MAGIC`. -/
def chainstateMagic : Nat := 0x54535843

/-- `CHAINSTATE_VERSION`. -/
def chainstateVersion : UInt8 := 1

/-- What memory can be had: a `std::vector` of so many bytes, and the table of
an `unordered_map` with so many entries. Both numbers are a `size_t`. -/
structure Memory where
  allocates : Nat → Bool
  reserves : Nat → Bool
  allocates_lt : ∀ {n}, allocates n = true → n < 2 ^ 64
  reserves_lt : ∀ {n}, reserves n = true → n < 2 ^ 64

/-- The fields behind the magic number, up to the records. -/
def headerBytes (bestHeight : UInt64) (tipHash : Hash512) (count : Nat) : Bytes :=
  [chainstateVersion] ++ (writeInt 8 bestHeight.toNat ++ (toPaddedBytes 64 tipHash.toNat ++
    writeInt 8 count))

/-- A record: two strings with their lengths. -/
def recordBytes (r : Bytes × Bytes) : Bytes :=
  writeInt 8 r.1.length ++ (r.1 ++ (writeInt 8 r.2.length ++ r.2))

/-- The strings of an entry of the map. -/
def entryRecord (e : OutPoint × UTXOEntry) : Bytes × Bytes := (e.1.serialize, e.2.serialize)

section

variable (mem : Memory)

/-- `flush_chainstate` with the entries in the order of the traversal, when the
file can be written; `none` if a serialized entry does not fit into memory. -/
def flushChainstate (entries : List (OutPoint × UTXOEntry)) (bestHeight : UInt64)
    (tipHash : Hash512) : Option Bytes :=
  let records := entries.map entryRecord
  if records.all fun r => mem.allocates r.1.length && mem.allocates r.2.length then
    let body := headerBytes bestHeight tipHash entries.length ++ records.flatMap recordBytes
    some (writeInt 4 chainstateMagic ++ (body ++
      writeU32 (crc32Finalize (crc32Update 0xFFFFFFFF body))))
  else none

/-! ## The loader -/

/-- How a record is read: with an exception, not in full, or with what it
decodes to. -/
inductive ReadRecord where
  | raised
  | ended
  | read (r : Bytes × Bytes) (op : OutPoint) (entry : UTXOEntry) (rest : Bytes)

def readRecord (data : Bytes) : ReadRecord :=
  match readInt 8 data with
  | none => .ended
  | some (opLen, data) =>
      if !mem.allocates opLen then .raised
      else
        match readRaw opLen data with
        | none => .ended
        | some (opData, data) =>
            match readInt 8 data with
            | none => .ended
            | some (entryLen, data) =>
                if !mem.allocates entryLen then .raised
                else
                  match readRaw entryLen data with
                  | none => .ended
                  | some (entryData, data) =>
                      match OutPoint.deserialize opData with
                      | none => .raised
                      | some (op, _) =>
                          match UTXOEntry.deserialize entryData with
                          | none => .raised
                          | some (entry, _) => .read (opData, entryData) op entry data

/-- `loaded.emplace`: an entry that is there already stays. -/
def emplace (loaded : UTXOSet) (op : OutPoint) (entry : UTXOEntry) : UTXOSet :=
  if (loaded.lookup op).isSome then loaded else loaded.insert op entry

inductive ReadRecords where
  | raised
  | ended
  | read (crc : UInt32) (loaded : UTXOSet) (rest : Bytes)

/-- The loop over the records. -/
def readRecords : Nat → UInt32 → UTXOSet → Bytes → ReadRecords
  | 0, crc, loaded, data => .read crc loaded data
  | count + 1, crc, loaded, data =>
      match readRecord mem data with
      | .raised => .raised
      | .ended => .ended
      | .read r op entry data =>
          readRecords count (crc32Update crc (recordBytes r)) (emplace loaded op entry) data

/-- The fields before the records; `none` if the file is too short or of
another kind. -/
def readHeader (data : Bytes) : Option ((UInt64 × Hash512 × Nat) × Bytes) :=
  (readInt 4 data).bind fun (magic, data) =>
    (readRaw 1 data).bind fun (version, data) =>
      if magic ≠ chainstateMagic ∨ version ≠ [chainstateVersion] then none
      else
        (readInt 8 data).bind fun (bestHeight, data) =>
          (readRaw 64 data).bind fun (tipBytes, data) =>
            (readInt 8 data).map fun (count, data) =>
              ((UInt64.ofNat bestHeight, BitVec.ofNat 512 (fromBytes tipBytes), count), data)

/-- The members that `load_chainstate` sets. -/
structure Snapshot where
  map : UTXOSet
  bestHeight : UInt64
  tipHash : Hash512

/-- How a call of `load_chainstate` ends. -/
inductive Exit where
  | raised
  | returned (ok : Bool)
deriving DecidableEq

/-- `load_chainstate`; the file may not exist. -/
def loadChainstate (file : Option Bytes) (s : Snapshot) : Exit × Snapshot :=
  match file.bind readHeader with
  | none => (.returned false, s)
  | some ((bestHeight, tipHash, count), data) =>
      let crc := crc32Update 0xFFFFFFFF (headerBytes bestHeight tipHash count)
      if !mem.reserves count then (.raised, s)
      else
        match readRecords mem count crc ∅ data with
        | .raised => (.raised, s)
        | .ended => (.returned false, s)
        | .read crc loaded data =>
            match readU32 data with
            | none => (.returned false, s)
            | some (stored, _) =>
                if crc32Finalize crc ≠ stored then (.returned false, s)
                else (.returned true, ⟨loaded, bestHeight, tipHash⟩)

end

/-! ## Reading what was written -/

theorem readRaw_exact {n : Nat} {data l rest : Bytes} (h : readRaw n data = some (l, rest)) :
    l.length = n ∧ data = l ++ rest := by
  rw [readRaw] at h
  split at h
  · cases h
  · cases h
    exact ⟨by rw [List.length_take]; omega, (List.take_append_drop n data).symm⟩

theorem readInt8_write {n : Nat} (hn : n < 2 ^ 64) (rest : Bytes) :
    readInt 8 (writeInt 8 n ++ rest) = some (n, rest) :=
  readInt_writeInt rest (lt_of_lt_of_eq hn (by norm_num))

theorem readInt8_lt {n : Nat} {data rest : Bytes} (h : readInt 8 data = some (n, rest)) :
    n < 2 ^ 64 := lt_of_lt_of_eq (readInt_lt h) (by norm_num)

theorem readHeader_header (bestHeight : UInt64) (tipHash : Hash512) {count : Nat}
    (hcount : count < 2 ^ 64) (rest : Bytes) :
    readHeader (writeInt 4 chainstateMagic ++ (headerBytes bestHeight tipHash count ++ rest)) =
      some ((bestHeight, tipHash, count), rest) := by
  have hmagic : chainstateMagic < 256 ^ 4 := by decide
  have hversion : ∀ l : Bytes, readRaw 1 ([chainstateVersion] ++ l) = some ([chainstateVersion], l) :=
    fun l => readRaw_append [chainstateVersion] l
  have htip : ∀ l : Bytes, readRaw 64 (toPaddedBytes 64 tipHash.toNat ++ l) =
      some (toPaddedBytes 64 tipHash.toNat, l) := by
    intro l
    have h := readRaw_append (toPaddedBytes 64 tipHash.toNat) l
    rwa [length_toPaddedBytes] at h
  have hvalue : fromBytes (toPaddedBytes 64 tipHash.toNat) = tipHash.toNat :=
    fromBytes_padded tipHash rfl
  unfold readHeader headerBytes
  simp only [List.append_assoc, readInt_writeInt _ hmagic, Option.bind_some, hversion, ne_eq,
    not_true_eq_false, or_self, if_false, readInt8_write bestHeight.toNat_lt, htip,
    readInt8_write hcount, Option.map_some, UInt64.ofNat_toNat, hvalue, BitVec.ofNat_toNat,
    BitVec.setWidth_eq]

theorem readHeader_eq_some_iff {data rest : Bytes} {bestHeight : UInt64} {tipHash : Hash512}
    {count : Nat} : readHeader data = some ((bestHeight, tipHash, count), rest) ↔
      count < 2 ^ 64 ∧
        data = writeInt 4 chainstateMagic ++ (headerBytes bestHeight tipHash count ++ rest) := by
  constructor
  · intro h
    unfold readHeader at h
    obtain ⟨⟨magic, d₁⟩, h₁, h⟩ := Option.bind_eq_some_iff.mp h
    obtain ⟨⟨version, d₂⟩, h₂, h⟩ := Option.bind_eq_some_iff.mp h
    dsimp only at h
    split at h
    · cases h
    · next hkind =>
        obtain ⟨⟨height, d₃⟩, h₃, h⟩ := Option.bind_eq_some_iff.mp h
        obtain ⟨⟨tipBytes, d₄⟩, h₄, h⟩ := Option.bind_eq_some_iff.mp h
        obtain ⟨⟨n, d₅⟩, h₅, h⟩ := Option.map_eq_some_iff.mp h
        cases h
        dsimp only at h₄ h₅
        obtain ⟨hmagic, hversion⟩ := not_or.mp hkind
        obtain ⟨-, hd₁⟩ := readRaw_exact h₂
        obtain ⟨htip, hd₃⟩ := readRaw_exact h₄
        have hheight : (UInt64.ofNat height).toNat = height := by
          rw [UInt64.toNat_ofNat']
          exact Nat.mod_eq_of_lt (readInt8_lt h₃)
        have hbytes : toPaddedBytes 64 (BitVec.ofNat 512 (fromBytes tipBytes)).toNat = tipBytes :=
          padded_fromBytes htip rfl
        refine ⟨readInt8_lt h₅, ?_⟩
        rw [readInt_exact h₁, hd₁, readInt_exact h₃, hd₃, readInt_exact h₅, headerBytes, hheight,
          hbytes, not_not.mp hmagic, not_not.mp hversion]
        simp only [List.append_assoc]
  · rintro ⟨hcount, rfl⟩
    exact readHeader_header bestHeight tipHash hcount rest

/-! ## Records -/

/-- A record that the loader reads: both strings fit into memory, and decode. -/
structure Readable (mem : Memory) (r : Bytes × Bytes) (op : OutPoint) (entry : UTXOEntry) : Prop where
  opFits : mem.allocates r.1.length = true
  entryFits : mem.allocates r.2.length = true
  op : (OutPoint.deserialize r.1).map Prod.fst = some op
  entry : (UTXOEntry.deserialize r.2).map Prod.fst = some entry

/-- What stands at the front makes the loader raise: a length for which there
is no memory, or two whole strings of which one does not decode. -/
inductive FaultyRecord (mem : Memory) : Bytes → Prop where
  | outpointLength {n : Nat} (rest : Bytes) : n < 2 ^ 64 → mem.allocates n = false →
      FaultyRecord mem (writeInt 8 n ++ rest)
  | entryLength {op : Bytes} {n : Nat} (rest : Bytes) : mem.allocates op.length = true →
      n < 2 ^ 64 → mem.allocates n = false →
      FaultyRecord mem (writeInt 8 op.length ++ (op ++ (writeInt 8 n ++ rest)))
  | undecodable {r : Bytes × Bytes} (rest : Bytes) : mem.allocates r.1.length = true →
      mem.allocates r.2.length = true →
      OutPoint.deserialize r.1 = none ∨ UTXOEntry.deserialize r.2 = none →
      FaultyRecord mem (recordBytes r ++ rest)

section

variable {mem : Memory} {data rest : Bytes} {r : Bytes × Bytes} {op : OutPoint} {entry : UTXOEntry}

theorem recordBytes_append (r : Bytes × Bytes) (rest : Bytes) : recordBytes r ++ rest =
    writeInt 8 r.1.length ++ (r.1 ++ (writeInt 8 r.2.length ++ (r.2 ++ rest))) := by
  simp only [recordBytes, List.append_assoc]

theorem readRecord_readable (h : Readable mem r op entry) (rest : Bytes) :
    readRecord mem (recordBytes r ++ rest) = .read r op entry rest := by
  obtain ⟨⟨op', t⟩, hop, rfl⟩ := Option.map_eq_some_iff.mp h.op
  obtain ⟨⟨entry', t'⟩, hentry, rfl⟩ := Option.map_eq_some_iff.mp h.entry
  rw [recordBytes_append, readRecord]
  simp only [readInt8_write (mem.allocates_lt h.opFits), h.opFits, Bool.not_true, readRaw_append,
    readInt8_write (mem.allocates_lt h.entryFits), h.entryFits, hop, hentry]
  rfl

theorem readRecord_faulty (h : FaultyRecord mem data) : readRecord mem data = .raised := by
  cases h with
  | outpointLength rest hlt hmem =>
      rw [readRecord]
      simp only [readInt8_write hlt, hmem]
      rfl
  | entryLength rest hop hlt hmem =>
      rw [readRecord]
      simp only [readInt8_write (mem.allocates_lt hop), hop, Bool.not_true, readRaw_append,
        readInt8_write hlt, hmem]
      rfl
  | @undecodable r rest hop hentry hdecode =>
      rw [recordBytes_append, readRecord]
      simp only [readInt8_write (mem.allocates_lt hop), hop, Bool.not_true, readRaw_append,
        readInt8_write (mem.allocates_lt hentry), hentry]
      obtain hnone | hnone := hdecode
      · rw [hnone]
        rfl
      · rw [hnone]
        cases OutPoint.deserialize r.1 <;> rfl

/-- How the front of the file decides what becomes of a record. -/
theorem readRecord_cases (mem : Memory) (data : Bytes) :
    (readRecord mem data = .raised ∧ FaultyRecord mem data) ∨ readRecord mem data = .ended ∨
      ∃ r op entry rest, readRecord mem data = .read r op entry rest ∧ Readable mem r op entry ∧
        data = recordBytes r ++ rest := by
  cases hopLen : readInt 8 data with
  | none =>
      refine Or.inr (Or.inl ?_)
      simp only [readRecord, hopLen]
  | some res =>
      obtain ⟨opLen, d₁⟩ := res
      have hlt := readInt8_lt hopLen
      have hdata := readInt_exact hopLen
      cases hopFits : mem.allocates opLen with
      | false =>
          have hfaulty : FaultyRecord mem data := hdata ▸ .outpointLength d₁ hlt hopFits
          exact Or.inl ⟨readRecord_faulty hfaulty, hfaulty⟩
      | true =>
          cases hop : readRaw opLen d₁ with
          | none =>
              refine Or.inr (Or.inl ?_)
              simp only [readRecord, hopLen, hopFits, hop]
              rfl
          | some res =>
              obtain ⟨opData, d₂⟩ := res
              obtain ⟨rfl, rfl⟩ := readRaw_exact hop
              cases hentryLen : readInt 8 d₂ with
              | none =>
                  refine Or.inr (Or.inl ?_)
                  simp only [readRecord, hopLen, hopFits, hop, hentryLen]
                  rfl
              | some res =>
                  obtain ⟨entryLen, d₃⟩ := res
                  have hlt' := readInt8_lt hentryLen
                  have hd₂ := readInt_exact hentryLen
                  subst hd₂
                  cases hentryFits : mem.allocates entryLen with
                  | false =>
                      have hfaulty : FaultyRecord mem data :=
                        hdata ▸ .entryLength d₃ hopFits hlt' hentryFits
                      exact Or.inl ⟨readRecord_faulty hfaulty, hfaulty⟩
                  | true =>
                      cases hentry : readRaw entryLen d₃ with
                      | none =>
                          refine Or.inr (Or.inl ?_)
                          simp only [readRecord, hopLen, hopFits, hop, hentryLen, hentryFits, hentry]
                          rfl
                      | some res =>
                          obtain ⟨entryData, d₄⟩ := res
                          obtain ⟨rfl, rfl⟩ := readRaw_exact hentry
                          have hrecord : data = recordBytes (opData, entryData) ++ d₄ := by
                            rw [hdata, recordBytes_append]
                          cases hop' : OutPoint.deserialize opData with
                          | none =>
                              have hfaulty : FaultyRecord mem data :=
                                hrecord ▸ .undecodable d₄ hopFits hentryFits (Or.inl hop')
                              exact Or.inl ⟨readRecord_faulty hfaulty, hfaulty⟩
                          | some op =>
                              cases hentry' : UTXOEntry.deserialize entryData with
                              | none =>
                                  have hfaulty : FaultyRecord mem data :=
                                    hrecord ▸ .undecodable d₄ hopFits hentryFits (Or.inr hentry')
                                  exact Or.inl ⟨readRecord_faulty hfaulty, hfaulty⟩
                              | some entry =>
                                  have hreadable : Readable mem (opData, entryData) op.1 entry.1 :=
                                    ⟨hopFits, hentryFits, by rw [hop']; rfl, by rw [hentry']; rfl⟩
                                  refine Or.inr (Or.inr ⟨_, _, _, d₄, ?_, hreadable, hrecord⟩)
                                  rw [hrecord]
                                  exact readRecord_readable hreadable d₄

/-! ## The loop -/

/-- Records that the loader reads, with what they decode to. -/
abbrev AllReadable (mem : Memory) (records : List (Bytes × Bytes))
    (entries : List (OutPoint × UTXOEntry)) : Prop :=
  List.Forall₂ (fun r e => Readable mem r e.1 e.2) records entries

/-- The map that the loop builds. -/
def emplaceAll (loaded : UTXOSet) (entries : List (OutPoint × UTXOEntry)) : UTXOSet :=
  entries.foldl (fun loaded e => emplace loaded e.1 e.2) loaded

theorem readRecords_readable {records : List (Bytes × Bytes)}
    {entries : List (OutPoint × UTXOEntry)} (h : AllReadable mem records entries) (n : Nat)
    (rest : Bytes) : ∀ (crc : UInt32) (loaded : UTXOSet),
    readRecords mem (records.length + n) crc loaded (records.flatMap recordBytes ++ rest) =
      readRecords mem n (crc32Update crc (records.flatMap recordBytes)) (emplaceAll loaded entries)
        rest := by
  induction h with
  | nil =>
      intro crc loaded
      rw [List.length_nil, Nat.zero_add]
      rfl
  | cons hhead _ ih =>
      intro crc loaded
      rw [List.length_cons, Nat.add_right_comm, List.flatMap_cons, List.append_assoc, readRecords,
        readRecord_readable hhead]
      simp only
      rw [ih, crc32Update_append]
      rfl

/-- The records in front of the place where the loop stops. -/
theorem records_split (mem : Memory) : ∀ (n : Nat) (data : Bytes), ∃ records entries tail,
    AllReadable mem records entries ∧ data = records.flatMap recordBytes ++ tail ∧
      (records.length = n ∨ records.length < n ∧
        (FaultyRecord mem tail ∨ readRecord mem tail = .ended))
  | 0, data => ⟨[], [], data, .nil, rfl, Or.inl rfl⟩
  | n + 1, data => by
      obtain ⟨-, hfaulty⟩ | hended | ⟨r, op, entry, rest, -, hreadable, hdata⟩ :=
        readRecord_cases mem data
      · exact ⟨[], [], data, .nil, rfl, Or.inr ⟨Nat.succ_pos n, Or.inl hfaulty⟩⟩
      · exact ⟨[], [], data, .nil, rfl, Or.inr ⟨Nat.succ_pos n, Or.inr hended⟩⟩
      · obtain ⟨records, entries, tail, hall, hrest, hstop⟩ := records_split mem n rest
        refine ⟨r :: records, (op, entry) :: entries, tail, .cons hreadable hall, ?_, ?_⟩
        · rw [List.flatMap_cons, List.append_assoc, ← hrest, hdata]
        · rw [List.length_cons]
          exact hstop.imp (congrArg (· + 1)) fun h => ⟨Nat.succ_lt_succ h.1, h.2⟩

/-- The records end in a fault before all of them are read. -/
def FaultyRecords (mem : Memory) (n : Nat) (data : Bytes) : Prop :=
  ∃ records entries tail, AllReadable mem records entries ∧ records.length < n ∧
    data = records.flatMap recordBytes ++ tail ∧ FaultyRecord mem tail

theorem readRecords_faulty {n : Nat} (h : FaultyRecords mem n data) (crc : UInt32)
    (loaded : UTXOSet) : readRecords mem n crc loaded data = .raised := by
  obtain ⟨records, entries, tail, hall, hlt, rfl, hfaulty⟩ := h
  obtain ⟨k, rfl⟩ := Nat.exists_eq_add_of_lt hlt
  rw [Nat.add_assoc, readRecords_readable hall, readRecords, readRecord_faulty hfaulty]

/-- The loop raises at a fault, ends with the file, or reads all records. -/
theorem readRecords_cases (mem : Memory) (n : Nat) (crc : UInt32) (loaded : UTXOSet)
    (data : Bytes) : FaultyRecords mem n data ∨ readRecords mem n crc loaded data = .ended ∨
      ∃ records entries rest, AllReadable mem records entries ∧ records.length = n ∧
        data = records.flatMap recordBytes ++ rest ∧
        readRecords mem n crc loaded data =
          .read (crc32Update crc (records.flatMap recordBytes)) (emplaceAll loaded entries) rest := by
  obtain ⟨records, entries, tail, hall, rfl, rfl | ⟨hlt, hfaulty | hended⟩⟩ :=
    records_split mem n data
  · exact Or.inr (Or.inr ⟨records, entries, tail, hall, rfl, rfl, readRecords_readable hall 0 tail _ _⟩)
  · exact Or.inl ⟨records, entries, tail, hall, hlt, rfl, hfaulty⟩
  · refine Or.inr (Or.inl ?_)
    obtain ⟨k, rfl⟩ := Nat.exists_eq_add_of_lt hlt
    rw [Nat.add_assoc, readRecords_readable hall, readRecords, hended]

end

/-! ## Reading what was written -/

/-- The entries of a map, emplaced in the order of a traversal, are the map. -/
theorem emplaceAll_visit (order : FinMap.VisitOrder OutPoint UTXOEntry) (map : UTXOSet) :
    emplaceAll ∅ (order.visit map) = map := order.emplaceAll_visit map

section

variable {mem : Memory}

theorem readable_entryRecord {e : OutPoint × UTXOEntry}
    (hop : mem.allocates e.1.serialize.length = true)
    (hentry : mem.allocates e.2.serialize.length = true) :
    Readable mem (entryRecord e) e.1 e.2 := by
  have hop' := OutPoint.roundTrip e.1 []
  have hentry' := UTXOEntry.roundTrip e.2 []
  rw [List.append_nil] at hop' hentry'
  exact ⟨hop, hentry, by rw [entryRecord, hop']; rfl, by rw [entryRecord, hentry']; rfl⟩

/-- The loader on a file whose records are whole and in memory. -/
theorem loadChainstate_records (bestHeight : UInt64) (tipHash : Hash512)
    {records : List (Bytes × Bytes)} {entries : List (OutPoint × UTXOEntry)}
    (hreserves : mem.reserves records.length = true) (hall : AllReadable mem records entries)
    (stored : UInt32) (rest : Bytes) (s : Snapshot) :
    loadChainstate mem (some (writeInt 4 chainstateMagic ++
        (headerBytes bestHeight tipHash records.length ++
          (records.flatMap recordBytes ++ (writeU32 stored ++ rest))))) s =
      if crc32Finalize (crc32Update 0xFFFFFFFF
          (headerBytes bestHeight tipHash records.length ++ records.flatMap recordBytes)) = stored
      then (.returned true, ⟨emplaceAll ∅ entries, bestHeight, tipHash⟩)
      else (.returned false, s) := by
  have hrecords := readRecords_readable hall 0 (writeU32 stored ++ rest)
  rw [Nat.add_zero] at hrecords
  rw [loadChainstate, Option.bind_some, readHeader_header _ _ (mem.reserves_lt hreserves)]
  simp only [hreserves, Bool.not_true, Bool.false_eq_true, if_false, hrecords, readRecords,
    roundTrip_u32 _ _, crc32Update_append, ne_eq, ite_not]

/-- A snapshot that was written is loaded as it was, in whatever order its
entries were visited. -/
theorem loadChainstate_flushChainstate (mem : Memory)
    (order : FinMap.VisitOrder OutPoint UTXOEntry) (map : UTXOSet) (bestHeight : UInt64)
    (tipHash : Hash512) (hreserves : mem.reserves (order.visit map).length = true) {file : Bytes}
    (hfile : flushChainstate mem (order.visit map) bestHeight tipHash = some file) (s : Snapshot) :
    loadChainstate mem (some file) s = (.returned true, ⟨map, bestHeight, tipHash⟩) := by
  unfold flushChainstate at hfile
  simp only at hfile
  split at hfile
  · next hfits =>
      cases hfile
      rw [List.all_map, List.all_eq_true] at hfits
      have hall : AllReadable mem ((order.visit map).map entryRecord) (order.visit map) := by
        rw [AllReadable, List.forall₂_map_left_iff]
        refine List.forall₂_same.mpr fun e he => ?_
        obtain ⟨hop, hentry⟩ := Bool.and_eq_true_iff.mp (hfits e he)
        exact readable_entryRecord hop hentry
      have hload := loadChainstate_records bestHeight tipHash
        (by rw [List.length_map]; exact hreserves) hall
        (crc32Finalize (crc32Update 0xFFFFFFFF
          (headerBytes bestHeight tipHash ((order.visit map).map entryRecord).length ++
            ((order.visit map).map entryRecord).flatMap recordBytes))) [] s
      rw [if_pos rfl, emplaceAll_visit, List.append_nil, List.length_map] at hload
      rw [← hload]
      simp only [List.append_assoc]
  · cases hfile

/-! ## Any file -/

/-- A file that makes the loader raise: of the right kind, with a number of
records for which no table can be had, or with a fault behind records that are
read. -/
def FaultyFile (mem : Memory) (file : Option Bytes) : Prop :=
  ∃ bestHeight tipHash count rest, count < 2 ^ 64 ∧
    file = some (writeInt 4 chainstateMagic ++ (headerBytes bestHeight tipHash count ++ rest)) ∧
    (mem.reserves count = false ∨ FaultyRecords mem count rest)

/-- The file holds what was loaded, followed by the checksum of it. -/
def Checked (mem : Memory) (file : Option Bytes) (s : Snapshot) : Prop :=
  ∃ records entries rest, AllReadable mem records entries ∧ s.map = emplaceAll ∅ entries ∧
    file = some (writeInt 4 chainstateMagic ++
      (headerBytes s.bestHeight s.tipHash records.length ++ (records.flatMap recordBytes ++
        (writeU32 (crc32Finalize (crc32Update 0xFFFFFFFF
          (headerBytes s.bestHeight s.tipHash records.length ++ records.flatMap recordBytes))) ++
            rest))))

/-- The loader returns; `true` only for a file with the right checksum, and
`false` with nothing changed. -/
structure Tolerates (mem : Memory) (file : Option Bytes) (s : Snapshot) : Prop where
  returns : (loadChainstate mem file s).1 ≠ .raised
  checked : (loadChainstate mem file s).1 = .returned true →
    Checked mem file (loadChainstate mem file s).2
  unchanged : (loadChainstate mem file s).1 = .returned false → (loadChainstate mem file s).2 = s

theorem loadChainstate_faulty {file : Option Bytes} (h : FaultyFile mem file) (s : Snapshot) :
    loadChainstate mem file s = (.raised, s) := by
  obtain ⟨bestHeight, tipHash, count, rest, hcount, rfl, hfault⟩ := h
  rw [loadChainstate, Option.bind_some, readHeader_header _ _ hcount]
  cases hreserves : mem.reserves count with
  | false =>
      simp only [hreserves]
      rfl
  | true =>
      obtain hnone | hfaulty := hfault
      · rw [hnone] at hreserves
        cases hreserves
      · simp only [hreserves, readRecords_faulty hfaulty]
        rfl

theorem tolerates_rejected {file : Option Bytes} {s : Snapshot}
    (h : loadChainstate mem file s = (.returned false, s)) : Tolerates mem file s := by
  refine ⟨?_, ?_, fun _ => by rw [h]⟩
  · rw [h]
    exact nofun
  · rw [h]
    exact nofun

/-- The loader copes with every file but the faulty ones. -/
theorem loadChainstate_tolerates_iff (mem : Memory) (file : Option Bytes) (s : Snapshot) :
    Tolerates mem file s ↔ ¬ FaultyFile mem file := by
  refine ⟨fun h hfaulty => h.returns (by rw [loadChainstate_faulty hfaulty]), fun hsound => ?_⟩
  cases hheader : file.bind readHeader with
  | none => exact tolerates_rejected (by rw [loadChainstate, hheader])
  | some res =>
      obtain ⟨⟨bestHeight, tipHash, count⟩, data⟩ := res
      obtain ⟨bytes, rfl, hread⟩ := Option.bind_eq_some_iff.mp hheader
      obtain ⟨hcount, rfl⟩ := readHeader_eq_some_iff.mp hread
      have hreserves : mem.reserves count = true := by
        by_contra hno
        exact hsound ⟨bestHeight, tipHash, count, data, hcount, rfl,
          Or.inl (Bool.eq_false_iff.mpr hno)⟩
      obtain hfaulty | hended | ⟨records, entries, rest, hall, rfl, rfl, hrecords⟩ :=
        readRecords_cases mem count
          (crc32Update 0xFFFFFFFF (headerBytes bestHeight tipHash count)) ∅ data
      · exact absurd ⟨bestHeight, tipHash, count, data, hcount, rfl, Or.inr hfaulty⟩ hsound
      · refine tolerates_rejected ?_
        rw [loadChainstate, hheader]
        simp only [hreserves, Bool.not_true, Bool.false_eq_true, if_false, hended]
      · cases hstored : readU32 rest with
        | none =>
            refine tolerates_rejected ?_
            rw [loadChainstate, hheader]
            simp only [hreserves, Bool.not_true, Bool.false_eq_true, if_false, hrecords, hstored]
        | some res =>
            obtain ⟨stored, rest'⟩ := res
            have hrest := readU32_exact hstored
            subst hrest
            have hload := loadChainstate_records bestHeight tipHash hreserves hall stored
              rest' s
            split at hload
            · next hcrc =>
                refine ⟨by rw [hload]; exact nofun, fun _ => ?_, by rw [hload]; exact nofun⟩
                rw [hload]
                exact ⟨records, entries, rest', hall, rfl, by rw [hcrc]⟩
            · exact tolerates_rejected hload

end

/-! ## A small chain state -/

/-- Memory for up to a megabyte. -/
def smallMemory : Memory where
  allocates n := n < 2 ^ 20
  reserves n := n < 2 ^ 20
  allocates_lt h := Nat.lt_of_lt_of_le (of_decide_eq_true h) (by decide)
  reserves_lt h := Nat.lt_of_lt_of_le (of_decide_eq_true h) (by decide)

/-- Outpoints in the order of their number and index. -/
def outpointOrder : FinMap.VisitOrder OutPoint UTXOEntry :=
  .byRank (fun op => op.txHash.toNat * 2 ^ 32 + op.index.toNat) <| by
    intro op op' h
    obtain ⟨txHash, index⟩ := op
    obtain ⟨txHash', index'⟩ := op'
    have hindex := index.toNat_lt
    have hindex' := index'.toNat_lt
    simp only at h
    have hhash : txHash.toNat = txHash'.toNat := by omega
    have hsame : index.toNat = index'.toNat := by omega
    rw [BitVec.toNat_inj.mp hhash, UInt32.toNat_inj.mp hsame]

/-- One coin. -/
def oneCoin : UTXOSet :=
  (∅ : UTXOSet).insert ⟨0, 0⟩ ⟨⟨50, ⟨[], Vec.nil_fits⟩⟩, 1, true⟩

theorem loadChainstate_oneCoin : ∃ file,
    flushChainstate smallMemory (outpointOrder.visit oneCoin) 1 7 = some file ∧
      loadChainstate smallMemory (some file) ⟨∅, 0, 0⟩ = (.returned true, ⟨oneCoin, 1, 7⟩) := by
  have hflush : (flushChainstate smallMemory (outpointOrder.visit oneCoin) 1 7).isSome = true := by
    decide
  obtain ⟨file, hfile⟩ := Option.isSome_iff_exists.mp hflush
  exact ⟨file, hfile, loadChainstate_flushChainstate smallMemory outpointOrder oneCoin 1 7
    (by decide) hfile _⟩

/-- The same file with one bit of the first length flipped. -/
def flippedFile : Option Bytes :=
  (flushChainstate smallMemory (outpointOrder.visit oneCoin) 1 7).map fun file => file.set 85 4

theorem not_tolerates_flippedFile : ¬ ∀ s, Tolerates smallMemory flippedFile s := by
  intro h
  have hraised : (loadChainstate smallMemory flippedFile ⟨∅, 0, 0⟩).1 = .raised := by decide +kernel
  exact (h ⟨∅, 0, 0⟩).returns hraised

end Chainstate

end Cryptex
