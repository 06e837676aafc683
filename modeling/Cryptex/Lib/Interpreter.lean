import Cryptex.Lib.Codec

/-!
# Interpreters

A program is a list of instructions, and an instruction takes a state to the
next one or stops the program. What each instruction keeps, or does in the same
way inside a frame, the program does. A machine that fetches its instructions
from code, one at a time, does what the list of the instructions in its code
does.
-/

namespace Interpreter

open Codec

variable {ι ε σ : Type*} (exec : ι → σ → Except ε σ)

/-- Does the instructions in order, up to one that stops the program. -/
def run : List ι → σ → Except ε σ
  | [], s => .ok s
  | i :: is, s => (exec i s).bind (run is)

@[simp] theorem run_nil (s : σ) : run exec [] s = .ok s := rfl

@[simp] theorem run_cons (i : ι) (is : List ι) (s : σ) :
    run exec (i :: is) s = (exec i s).bind (run exec is) := rfl

/-! ## Invariants -/

variable {exec}

/-- What holds of a program that gets to its end, and of one that stops. -/
def Ends (Q : σ → Prop) (E : ε → Prop) (r : Except ε σ) : Prop :=
  (∀ s, r = .ok s → Q s) ∧ ∀ e, r = .error e → E e

/-- What every instruction takes from the program before it to the program after
it holds at the end. -/
theorem run_ends {I : List ι → σ → Prop} {E : ε → Prop} : ∀ {is : List ι} {s : σ},
    (∀ i js s, i ∈ is → I (i :: js) s → Ends (I js) E (exec i s)) → I is s →
      Ends (I []) E (run exec is s)
  | [], s, _, hs => ⟨fun s' h => by cases h; exact hs, nofun⟩
  | i :: is, s, h, hs => by
      obtain ⟨hok, herror⟩ := h i is s List.mem_cons_self hs
      rw [run_cons]
      cases hi : exec i s with
      | error e => exact ⟨nofun, fun e' he => by cases he; exact herror e hi⟩
      | ok s' =>
          exact run_ends (fun j js s hj => h j js s (List.mem_cons_of_mem i hj)) (hok s' hi)

/-! ## Frames -/

/-- What the instruction does from a state, it does in the same way from the
state in a frame. A verdict that is not `firm` may change. -/
def Framed (exec : ι → σ → Except ε σ) (i : ι) (f : σ → σ) (firm : ε → Prop) (g : ε → ε) : Prop :=
  ∀ s, (∀ s', exec i s = .ok s' → exec i (f s) = .ok (f s')) ∧
    ∀ e, exec i s = .error e → firm e → exec i (f s) = .error (g e)

theorem run_framed {f : σ → σ} {firm : ε → Prop} {g : ε → ε} : ∀ {is : List ι} {s : σ},
    (∀ i ∈ is, Framed exec i f firm g) →
      (∀ s', run exec is s = .ok s' → run exec is (f s) = .ok (f s')) ∧
      ∀ e, run exec is s = .error e → firm e → run exec is (f s) = .error (g e)
  | [], s, _ => ⟨fun s' h => by cases h; rfl, nofun⟩
  | i :: is, s, h => by
      obtain ⟨hok, herror⟩ := h i List.mem_cons_self s
      rw [run_cons, run_cons]
      cases hi : exec i s with
      | error e =>
          refine ⟨nofun, fun e' he hfirm => ?_⟩
          cases he
          rw [herror e hi hfirm]
          rfl
      | ok t =>
          rw [hok t hi]
          exact run_framed fun j hj => h j (List.mem_cons_of_mem i hj)

/-! ## Instructions in code -/

variable {β : Type*} {dec : Decoder ι β}

/-- A decoder takes something off its input. -/
def Consumes (dec : Decoder ι β) : Prop :=
  ∀ {data i rest}, dec data = some (i, rest) → rest.length < data.length

/-- The instructions in a row at the front of the code, `n` at most, and what
is left. -/
def itemsUpTo (dec : Decoder ι β) : Nat → List β → List ι × List β
  | 0, data => ([], data)
  | n + 1, data =>
      match dec data with
      | none => ([], data)
      | some (i, rest) => (i :: (itemsUpTo dec n rest).1, (itemsUpTo dec n rest).2)

/-- The instructions in a row at the front of the code, and what is left: no
instruction is at the front of that. -/
def items (dec : Decoder ι β) (data : List β) : List ι × List β := itemsUpTo dec data.length data

theorem Consumes.nil (hdec : Consumes dec) : dec [] = none := by
  cases h : dec [] with
  | none => rfl
  | some r => exact absurd (hdec h) (Nat.not_lt_zero _)

theorem Consumes.itemsUpTo_eq (hdec : Consumes dec) : ∀ {n m : Nat} {data : List β},
    data.length ≤ n → data.length ≤ m → itemsUpTo dec n data = itemsUpTo dec m data
  | 0, 0, _, _, _ => rfl
  | 0, m + 1, data, hn, _ => by
      rw [List.length_eq_zero_iff.mp (Nat.le_zero.mp hn), itemsUpTo, itemsUpTo, hdec.nil]
  | n + 1, 0, data, _, hm => by
      rw [List.length_eq_zero_iff.mp (Nat.le_zero.mp hm), itemsUpTo, itemsUpTo, hdec.nil]
  | n + 1, m + 1, data, hn, hm => by
      rw [itemsUpTo, itemsUpTo]
      cases h : dec data with
      | none => rfl
      | some r =>
          obtain ⟨i, rest⟩ := r
          have hlt := hdec h
          have heq : itemsUpTo dec n rest = itemsUpTo dec m rest :=
            hdec.itemsUpTo_eq (by omega) (by omega)
          simp only [heq]

theorem Consumes.items_of_none (hdec : Consumes dec) {data : List β} (h : dec data = none) :
    items dec data = ([], data) := by
  rw [items, hdec.itemsUpTo_eq (Nat.le_refl _) (Nat.le_succ _), itemsUpTo, h]

theorem Consumes.items_of_some (hdec : Consumes dec) {data rest : List β} {i : ι}
    (h : dec data = some (i, rest)) :
    items dec data = (i :: (items dec rest).1, (items dec rest).2) := by
  have hlt := hdec h
  have heq : itemsUpTo dec data.length rest = itemsUpTo dec rest.length rest :=
    hdec.itemsUpTo_eq (Nat.le_of_lt hlt) (Nat.le_refl _)
  rw [items, hdec.itemsUpTo_eq (Nat.le_refl _) (Nat.le_succ _), itemsUpTo, h]
  simp only [items, heq]

/-- The instructions of concatenated encodings are those that were encoded. -/
theorem Consumes.items_flatMap (hdec : Consumes dec) {enc : ι → List β} : ∀ {is : List ι}
    {rest : List β}, (∀ i ∈ is, ∀ r, dec (enc i ++ r) = some (i, r)) →
    items dec (is.flatMap enc ++ rest) = (is ++ (items dec rest).1, (items dec rest).2)
  | [], rest, _ => rfl
  | i :: is, rest, h => by
      have hhead := h i List.mem_cons_self (is.flatMap enc ++ rest)
      rw [List.flatMap_cons, List.append_assoc, hdec.items_of_some hhead,
        hdec.items_flatMap fun j hj => h j (List.mem_cons_of_mem i hj)]
      rfl

/-- There are no more instructions than symbols, and each was read from an end of
the code. -/
theorem Consumes.items_of_mem (hdec : Consumes dec) : ∀ (n : Nat) (data : List β),
    (itemsUpTo dec n data).1.length ≤ data.length ∧
      ∀ i ∈ (itemsUpTo dec n data).1, ∃ tail rest, tail.length ≤ data.length ∧
        dec tail = some (i, rest)
  | 0, _ => ⟨Nat.zero_le _, nofun⟩
  | n + 1, data => by
      rw [itemsUpTo]
      cases h : dec data with
      | none => exact ⟨Nat.zero_le _, nofun⟩
      | some r =>
          obtain ⟨i, rest⟩ := r
          obtain ⟨hlen, hmem⟩ := hdec.items_of_mem n rest
          have hlt := hdec h
          refine ⟨Nat.lt_of_le_of_lt hlen hlt, fun j hj => ?_⟩
          obtain rfl | hj := List.mem_cons.mp hj
          · exact ⟨data, rest, Nat.le_refl _, h⟩
          · obtain ⟨tail, rest', htail, hread⟩ := hmem j hj
            exact ⟨tail, rest', Nat.le_trans htail (Nat.le_of_lt hlt), hread⟩

/-! ## Machines that fetch their instructions -/

section Machine

variable {τ δ : Type*} (halted : τ → Bool) (step : τ → Except δ τ)

/-- Takes steps until the machine has halted or a step stops it: `none` is a
machine that still runs. -/
def loop : Nat → τ → Option (Except δ τ)
  | 0, m => if halted m then some (.ok m) else none
  | n + 1, m =>
      if halted m then some (.ok m)
      else
        match step m with
        | .ok m' => loop n m'
        | .error e => some (.error e)

/-- A step of the machine does the instruction at the front of its code. -/
structure Implements (Inv : τ → Prop) (dec : Decoder ι β) (exec : ι → σ → Except ε σ)
    (bad : σ → ε) (code : τ → List β) (view : τ → σ) (viewError : δ → ε) : Prop where
  halted_iff : ∀ m, halted m = true ↔ code m = []
  fetched : ∀ {m i rest}, Inv m → dec (code m) = some (i, rest) →
    ((step m).map view).mapError viewError = exec i (view m) ∧
      ∀ m', step m = .ok m' → Inv m' ∧ code m' = rest
  unreadable : ∀ {m}, Inv m → code m ≠ [] → dec (code m) = none →
    ∃ e, step m = .error e ∧ viewError e = bad (view m)

variable {halted step} {Inv : τ → Prop} {bad : σ → ε} {code : τ → List β} {view : τ → σ}
  {viewError : δ → ε}

/-- What the instructions in the code do; `bad` is how the machine stops at what
is left after them. -/
def runCode (dec : Decoder ι β) (exec : ι → σ → Except ε σ) (bad : σ → ε) (data : List β)
    (s : σ) : Except ε σ :=
  (run exec (items dec data).1 s).bind
    fun t => if (items dec data).2 = [] then .ok t else .error (bad t)

theorem runCode_of_none (hdec : Consumes dec) {data : List β} (h : dec data = none) (s : σ) :
    runCode dec exec bad data s = if data = [] then .ok s else .error (bad s) := by
  rw [runCode, hdec.items_of_none h]
  rfl

theorem runCode_of_some (hdec : Consumes dec) {data rest : List β} {i : ι}
    (h : dec data = some (i, rest)) (s : σ) :
    runCode dec exec bad data s = (exec i s).bind (runCode dec exec bad rest) := by
  rw [runCode, hdec.items_of_some h]
  cases hi : exec i s <;> simp [runCode, hi, Except.bind]

/-- With steps for all of its code the machine comes to an end, the one of the
instructions in its code. -/
theorem Implements.loop_eq (himp : Implements halted step Inv dec exec bad code view viewError)
    (hdec : Consumes dec) : ∀ {n : Nat} {m : τ}, Inv m → (code m).length ≤ n →
    ∃ r, loop halted step n m = some r ∧
      (r.map view).mapError viewError = runCode dec exec bad (code m) (view m) ∧
      ∀ m', r = .ok m' → Inv m' ∧ code m' = []
  | n, m, hInv, hn => by
      by_cases hhalt : code m = []
      · refine ⟨.ok m, ?_, ?_, fun m' h => by cases h; exact ⟨hInv, hhalt⟩⟩
        · cases n <;> rw [loop, if_pos ((himp.halted_iff m).mpr hhalt)]
        · rw [hhalt, runCode_of_none hdec hdec.nil, if_pos rfl]
          rfl
      · cases n with
        | zero => exact absurd (List.length_eq_zero_iff.mp (Nat.le_zero.mp hn)) hhalt
        | succ n =>
            rw [loop, if_neg (mt (himp.halted_iff m).mp hhalt)]
            cases hcode : dec (code m) with
            | none =>
                obtain ⟨e, hstep, hbad⟩ := himp.unreadable hInv hhalt hcode
                refine ⟨.error e, by rw [hstep], ?_, nofun⟩
                rw [runCode_of_none hdec hcode, if_neg hhalt, ← hbad]
                rfl
            | some r =>
                obtain ⟨i, rest⟩ := r
                obtain ⟨hexec, hnext⟩ := himp.fetched hInv hcode
                have hlt := hdec hcode
                rw [runCode_of_some hdec hcode, ← hexec]
                cases hstep : step m with
                | error e => exact ⟨.error e, rfl, rfl, nofun⟩
                | ok m' =>
                    obtain ⟨hInv', hcode'⟩ := hnext m' hstep
                    have hfuel : (code m').length ≤ n := by rw [hcode']; omega
                    obtain ⟨r', hloop, hr', hend⟩ := himp.loop_eq hdec hInv' hfuel
                    refine ⟨r', hloop, ?_, hend⟩
                    rw [hr', hcode']
                    rfl

end Machine

end Interpreter
