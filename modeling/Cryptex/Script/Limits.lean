import Cryptex.Script.Numbers
import Cryptex.Script.Program

/-!
# What a script can do

How deep the stack gets, how long its elements and how an execution may end; and
what a script cannot see: the elements below those it uses.
-/

namespace Cryptex.Script

open Codec Interpreter

/-! ## Bounds -/

/-- What one opcode may leave on the stack: at most one element more, each an old
one or at most 32 bytes long. -/
structure Grows (s s' : Stack) : Prop where
  length_le : s'.length ≤ s.length + 1
  mem : ∀ e ∈ s', e ∈ s ∨ e.length ≤ 32

theorem Grows.of_subset {s s' : Stack} (hlen : s'.length ≤ s.length + 1) (hsub : s' ⊆ s) :
    Grows s s' := ⟨hlen, fun _ he => .inl (hsub he)⟩

theorem Grows.cons {s s' : Stack} {elem : StackElement} (h : s' ⊆ s) (hlen : s'.length ≤ s.length)
    (hnew : elem ∈ s ∨ elem.length ≤ 32) : Grows s (elem :: s') where
  length_le := Nat.succ_le_succ hlen
  mem e he := by
    obtain rfl | he := List.mem_cons.mp he
    · exact hnew
    · exact .inl (h he)

/-- How an opcode may halt. -/
def Opcode.MayHalt (env : Env) (op : Opcode) : Halt → Prop
  | .thrown => op = .hash160 ∧ ∃ data, env.digests.ripemd160 data = none
  | .undefined => op ∈ [.pick, .roll, .add, .sub]
  | .returned _ => True

/-- A call that keeps these bounds. -/
def Bounded (env : Env) (op : Opcode) (s : Stack) : Call → Prop :=
  Ends (Grows s) fun e => op.MayHalt env e.1 ∧ Grows s e.2

namespace Bounded

variable {env : Env} {op : Opcode} {s s' : Stack}

theorem ok (h : Grows s s') : Bounded env op s (.ok s') :=
  ⟨fun t ht => by cases ht; exact h, nofun⟩

theorem error {h : Halt} (hmay : op.MayHalt env h) (hgrows : Grows s s') :
    Bounded env op s (.error (h, s')) :=
  ⟨nofun, fun e he => by cases he; exact ⟨hmay, hgrows⟩⟩

theorem halt {result : ScriptResult} (hgrows : Grows s s') :
    Bounded env op s (Script.halt result s') := error trivial hgrows

theorem short {result : ScriptResult} : Bounded env op s (Script.halt result s) :=
  halt (.of_subset (Nat.le_succ _) fun _ he => he)

end Bounded

theorem length_truth (b : Bool) : (truth b).length ≤ 32 := by
  cases b <;> decide

theorem length_castFromInt (val : Int64) : (castFromInt val).length ≤ 32 := by
  have hu : val.toUInt64.toNat < 256 ^ 8 := by
    have := val.toUInt64.toNat_lt
    norm_num at this ⊢
    exact this
  have hlen := length_digitBytes_le hu
  rw [castFromInt_eq]
  cases (digitBytes val.toUInt64.toNat).getLast? with
  | none => exact Nat.zero_le 32
  | some last =>
      simp only
      split
      · rw [List.length_append, List.length_singleton]
        omega
      · omega

theorem length_hash160 {d : Digests} {data image : StackElement} (h : d.hash160 data = some image) :
    image.length ≤ 32 := by
  obtain ⟨p, -, rfl⟩ := Option.map_eq_some_iff.mp h
  rw [p.length_eq]
  decide

section Bounds

variable {env : Env} {op : Opcode}

theorem subset_tail {a : StackElement} {s t : Stack} (h : t ⊆ s) : t ⊆ a :: s :=
  List.subset_cons_of_subset a h

theorem digest_bounded {f : StackElement → Option StackElement}
    (hlen : ∀ data image, f data = some image → image.length ≤ 32)
    (hmay : ∀ data, f data = none → op.MayHalt env .thrown) : ∀ s,
    Bounded env op s (Opcode.digest f s)
  | [] => .short
  | a :: s => by
      rw [Opcode.digest_cons]
      cases hf : f a with
      | none => exact .error (hmay a hf) (.of_subset (by simp; omega) (subset_tail fun _ he => he))
      | some image =>
          exact .ok (.cons (subset_tail fun _ he => he) (by simp) (.inr (hlen a image hf)))

theorem length_toBytes_le (h : Hash256) : h.toBytes.length ≤ 32 :=
  Nat.le_of_eq (Hash256.length_toBytes h)

theorem length_hash256 (d : Digests) (data : StackElement) : (d.hash256 data).length ≤ 32 := by
  rw [Digests.hash256]
  exact length_toBytes_le _

theorem total_digest_bounded (f : StackElement → StackElement)
    (hlen : ∀ data, (f data).length ≤ 32) (s : Stack) :
    Bounded env op s (Opcode.digest (fun data => some (f data)) s) :=
  digest_bounded (fun data _ h => Option.some.inj h ▸ hlen data) nofun s

theorem arithmetic_bounded (hop : op ∈ [Opcode.pick, .roll, .add, .sub]) (f : Int → Int → Int) :
    ∀ s, Bounded env op s (Opcode.arithmetic f s)
  | [] | [a] => .short
  | a :: b :: s => by
      have hrest : Grows (a :: b :: s) s :=
        .of_subset (by simp; omega) (subset_tail (subset_tail fun _ he => he))
      rw [Opcode.arithmetic_cons]
      cases castToInt a with
      | none => exact .error hop hrest
      | some x =>
          cases castToInt b with
          | none => exact .error hop hrest
          | some y =>
              simp only
              cases int64Of (f x.toInt y.toInt) with
              | none => exact .error hop hrest
              | some value =>
                  exact .ok (.cons (subset_tail (subset_tail fun _ he => he)) (by simp; omega)
                    (.inr (length_castFromInt value)))

theorem atIndex_bounded (hop : op ∈ [Opcode.pick, .roll, .add, .sub])
    {f : Nat → StackElement → Stack → Stack}
    (hf : ∀ {idx elem a s}, s[idx]? = some elem → Grows (a :: s) (f idx elem s)) :
    ∀ s, Bounded env op s (Opcode.atIndex f s)
  | [] => .short
  | a :: s => by
      have hrest : Grows (a :: s) s := .of_subset (by simp; omega) (subset_tail fun _ he => he)
      rw [Opcode.atIndex_cons]
      cases castToInt a with
      | none => exact .error hop hrest
      | some idx =>
          simp only
          split
          · exact .halt hrest
          · cases hidx : s[idx.toInt.toNat]? with
            | none => exact .halt hrest
            | some elem => exact .ok (hf hidx)

theorem checkSignature_bounded (verify : Bool) : ∀ s,
    Bounded env op s (Opcode.checkSignature env verify s)
  | [] | [a] => .short
  | a :: b :: s => by
      have hrest : Grows (a :: b :: s) s :=
        .of_subset (by simp; omega) (subset_tail (subset_tail fun _ he => he))
      rw [Opcode.checkSignature_cons]
      cases env.sigChecker with
      | none => exact .halt hrest
      | some checker =>
          simp only
          split
          · exact .ok (.cons (subset_tail (subset_tail fun _ he => he)) (by simp; omega)
              (.inr (length_truth _)))
          · split
            · exact .halt hrest
            · exact .ok hrest

theorem pick_grows {idx : Nat} {elem a : StackElement} {s : Stack} (h : s[idx]? = some elem) :
    Grows (a :: s) (elem :: s) :=
  .cons (List.subset_cons_self a s) (Nat.le_succ _)
    (.inl (List.mem_cons_of_mem a (List.mem_of_getElem? h)))

theorem roll_grows {idx : Nat} {elem a : StackElement} {s : Stack} (h : s[idx]? = some elem) :
    Grows (a :: s) (elem :: s.eraseIdx idx) :=
  .cons (List.subset_cons_of_subset a List.eraseIdx_subset)
    ((List.length_eraseIdx_le s idx).trans (Nat.le_succ _))
    (.inl (List.mem_cons_of_mem a (List.mem_of_getElem? h)))

theorem Opcode.exec_bounded (env : Env) (op : Opcode) (s : Stack) : Bounded env op s (op.exec env s) := by
  have htail₁ : ∀ {a : StackElement} {s : Stack}, Grows (a :: s) s := fun {a s} =>
    .of_subset (by simp; omega) (List.subset_cons_self a s)
  have htail₂ : ∀ {a b : StackElement} {s : Stack}, Grows (a :: b :: s) s := fun {a b s} =>
    .of_subset (by simp; omega) (subset_tail (List.subset_cons_self b s))
  have hadd : add ∈ [pick, roll, add, sub] := by decide
  have hsub : sub ∈ [pick, roll, add, sub] := by decide
  cases op with
  | dup =>
      cases s with
      | nil => exact .short
      | cons a s => exact exec_dup ▸ .ok (.of_subset (Nat.le_refl _) (by simp))
  | drop =>
      cases s with
      | nil => exact .short
      | cons a s => exact exec_drop ▸ .ok htail₁
  | swap =>
      obtain _ | ⟨a, _ | ⟨b, s⟩⟩ := s
      · exact .short
      · exact .short
      · exact exec_swap ▸ .ok (.of_subset (Nat.le_succ _) (by grind))
  | rot =>
      obtain _ | ⟨a, _ | ⟨b, _ | ⟨c, s⟩⟩⟩ := s
      · exact .short
      · exact .short
      · exact .short
      · exact exec_rot ▸ .ok (.of_subset (Nat.le_succ _) (by grind))
  | over_ =>
      obtain _ | ⟨a, _ | ⟨b, s⟩⟩ := s
      · exact .short
      · exact .short
      · exact exec_over ▸ .ok (.of_subset (Nat.le_refl _) (by grind))
  | pick => exact exec_pick ▸ atIndex_bounded (by decide) pick_grows s
  | roll => exact exec_roll ▸ atIndex_bounded (by decide) roll_grows s
  | depth => exact .ok (.cons (fun _ he => he) (Nat.le_refl _) (.inr (length_castFromInt _)))
  | add => exact exec_add ▸ arithmetic_bounded hadd (fun a b => a + b) s
  | sub => exact exec_sub ▸ arithmetic_bounded hsub (fun a b => b - a) s
  | equal =>
      obtain _ | ⟨a, _ | ⟨b, s⟩⟩ := s
      · exact .short
      · exact .short
      · exact exec_equal ▸ .ok (.cons (subset_tail (List.subset_cons_self b s)) (by simp; omega)
          (.inr (length_truth _)))
  | equalVerify =>
      obtain _ | ⟨a, _ | ⟨b, s⟩⟩ := s
      · exact .short
      · exact .short
      · rw [exec_equalVerify]
        split
        · exact .halt htail₂
        · exact .ok htail₂
  | hash160 =>
      rw [exec_hash160]
      refine digest_bounded (fun data image => length_hash160) (fun data h => ⟨rfl, ?_⟩) s
      exact ⟨_, Option.map_eq_none_iff.mp h⟩
  | hash256 =>
      rw [exec_hash256]
      exact total_digest_bounded env.digests.hash256 (length_hash256 env.digests) s
  | sha1 =>
      rw [exec_sha1]
      exact total_digest_bounded (fun data => (env.digests.sha1 data).bytes)
        (fun data => (env.digests.sha1 data).length_eq.trans_le (by decide)) s
  | sha256 =>
      rw [exec_sha256]
      exact total_digest_bounded (fun data => (env.digests.sha256 data).toBytes)
        (fun _ => length_toBytes_le _) s
  | checkSig => exact checkSignature_bounded false s
  | checkSigVerify => exact checkSignature_bounded true s
  | checkMultiSig => exact .short
  | checkMultiSigVerify => exact .short
  | if_ => exact .short
  | notIf => exact .short
  | verify =>
      cases s with
      | nil => exact .short
      | cons a s =>
          rw [exec_verify]
          split
          · exact .halt htail₁
          · exact .ok htail₁
  | return_ => exact .short

end Bounds

/-! ## Bounds on a whole script -/

theorem push_of_fetch {data rest : Bytes} {elem : StackElement}
    (h : fetch data = some (.push elem, rest)) : elem.length ≤ data.length := by
  have htake : ∀ {len : Nat} {l : Bytes}, takeData len l = some (.push elem, rest) →
      elem.length ≤ l.length := by
    intro len l h
    rw [takeData] at h
    split at h
    · cases h
    · cases h
      rw [List.length_take]
      exact Nat.min_le_right _ _
  have hcounted : ∀ {width : Nat} {l : Bytes}, takeCounted width l = some (.push elem, rest) →
      elem.length ≤ l.length := by
    intro width l h
    rw [takeCounted] at h
    split at h
    · cases h
    · refine (htake h).trans ?_
      rw [List.length_drop]
      exact Nat.sub_le _ _
  cases data with
  | nil => cases h
  | cons op tail =>
      rw [fetch] at h
      refine Nat.le_succ_of_le ?_
      split_ifs at h
      · cases h
        exact Nat.zero_le _
      · exact htake h
      · exact hcounted h
      · exact hcounted h
      · exact hcounted h
      · cases h

/-- How a script may halt: an exception is that of a missing RIPEMD-160, never of an
empty stack; undefined behaviour comes from a number. -/
def MayHalt (env : Env) (program : List Instruction) : Halt → Prop
  | .thrown => ∃ data, env.digests.ripemd160 data = none
  | .undefined =>
      ∃ op ∈ [Opcode.pick, .roll, .add, .sub], Instruction.opcode op.toByte ∈ program
  | .returned _ => True

theorem Instruction.exec_grows (env : Env) {program : List Instruction} {i : Instruction}
    (hi : i ∈ program) {bound : Nat} (hbound : 32 ≤ bound)
    (hpush : ∀ data, i = .push data → data.length ≤ bound) (s : Stack) :
    Ends (fun s' => s'.length ≤ s.length + 1 ∧ ∀ e ∈ s', e ∈ s ∨ e.length ≤ bound)
      (fun e => MayHalt env program e.1 ∧ e.2.length ≤ s.length + 1 ∧
        ∀ x ∈ e.2, x ∈ s ∨ x.length ≤ bound) (i.exec env s) := by
  have hwide : ∀ {t : Stack}, Grows s t →
      t.length ≤ s.length + 1 ∧ ∀ e ∈ t, e ∈ s ∨ e.length ≤ bound :=
    fun hg => ⟨hg.length_le, fun e he => (hg.mem e he).imp_right fun h => h.trans hbound⟩
  cases i with
  | push data =>
      refine ⟨fun s' h => ?_, nofun⟩
      cases h
      refine ⟨Nat.le_refl _, fun e he => ?_⟩
      obtain rfl | he := List.mem_cons.mp he
      · exact .inr (hpush _ rfl)
      · exact .inl he
  | opcode b =>
      rw [Instruction.exec, execOpcode]
      cases hop : Opcode.ofByte b with
      | none =>
          refine ⟨nofun, fun e he => ?_⟩
          cases he
          exact ⟨trivial, hwide (.of_subset (Nat.le_succ _) fun _ he => he)⟩
      | some op =>
          obtain ⟨hok, herror⟩ := Opcode.exec_bounded env op s
          refine ⟨fun s' h => hwide (hok s' h), fun e he => ?_⟩
          obtain ⟨hmay, hgrows⟩ := herror e he
          refine ⟨?_, hwide hgrows⟩
          cases hhalt : e.1 with
          | returned result => exact trivial
          | thrown =>
              rw [hhalt] at hmay
              exact hmay.2
          | undefined =>
              rw [hhalt] at hmay
              exact ⟨op, hmay, Opcode.toByte_of_ofByte hop ▸ hi⟩

/-- The stack at the end of a call. -/
def finalStack : Call → Stack
  | .ok stack => stack
  | .error e => e.2

theorem runScript_bounded (env : Env) (script : Bytes) (stack : Stack) :
    (finalStack (runScript env script stack)).length ≤ stack.length + script.length ∧
      (∀ e ∈ finalStack (runScript env script stack),
        e ∈ stack ∨ e.length ≤ max 32 script.length) ∧
      ∀ e, runScript env script stack = .error e → MayHalt env (disassemble script).1 e.1 := by
  obtain ⟨hcount, hread⟩ := consumes_fetch.items_of_mem script.length script
  have hpush : ∀ i ∈ (disassemble script).1, ∀ data, i = .push data →
      data.length ≤ max 32 script.length := by
    rintro i hi data rfl
    obtain ⟨tail, rest, htail, hfetch⟩ := hread _ hi
    exact ((push_of_fetch hfetch).trans htail).trans (le_max_right _ _)
  have hends : Ends
      (fun s => s.length ≤ stack.length + script.length ∧
        ∀ e ∈ s, e ∈ stack ∨ e.length ≤ max 32 script.length)
      (fun e => MayHalt env (disassemble script).1 e.1 ∧
        e.2.length ≤ stack.length + script.length ∧
        ∀ x ∈ e.2, x ∈ stack ∨ x.length ≤ max 32 script.length)
      (run (Instruction.exec env) (disassemble script).1 stack) := by
    refine run_ends (I := fun rem s => s.length + rem.length ≤ stack.length + script.length ∧
      ∀ e ∈ s, e ∈ stack ∨ e.length ≤ max 32 script.length) (fun i js s hi hs => ?_)
      ⟨Nat.add_le_add_left hcount _, fun e he => .inl he⟩
    obtain ⟨hlen, hold⟩ := hs
    have hmem : ∀ {t : Stack}, (∀ e ∈ t, e ∈ s ∨ e.length ≤ max 32 script.length) →
        ∀ e ∈ t, e ∈ stack ∨ e.length ≤ max 32 script.length :=
      fun h e he => (h e he).elim (hold e) .inr
    rw [List.length_cons] at hlen
    obtain ⟨hok, herror⟩ := Instruction.exec_grows env hi (le_max_left 32 script.length)
      (hpush i hi) s
    refine ⟨fun s' h => ?_, fun e he => ?_⟩
    · obtain ⟨hgrow, hnew⟩ := hok s' h
      exact ⟨by omega, hmem hnew⟩
    · obtain ⟨hmay, hgrow, hnew⟩ := herror e he
      exact ⟨hmay, by omega, hmem hnew⟩
  obtain ⟨hok, herror⟩ := hends
  rw [runScript_eq]
  cases hrun : run (Instruction.exec env) (disassemble script).1 stack with
  | error e =>
      obtain ⟨hmay, hlen, hmem⟩ := herror e hrun
      exact ⟨hlen, hmem, fun e' he' => by cases he'; exact hmay⟩
  | ok s =>
      obtain ⟨hlen, hmem⟩ := hok s hrun
      simp only [Except.bind]
      split
      · exact ⟨hlen, hmem, nofun⟩
      · exact ⟨hlen, hmem, fun e' he' => by cases he'; trivial⟩

/-- An execution takes at most one step for each byte of the script, leaves at most
one element more for each, none of them longer than the script, 32 bytes or what
was there before, and ends in no other way than `MayHalt` says. -/
theorem ScriptMachine.execute_bounded (d : Digests) (m : ScriptMachine) (script : Bytes)
    (extra : Nat) :
    ∃ r, (m.setScript script).execute d (script.length + extra) = some r ∧
      (finalStack (onStack r)).length ≤ m.stack.length + script.length ∧
      (∀ e ∈ finalStack (onStack r), e ∈ m.stack ∨ e.length ≤ max 32 script.length) ∧
      ∀ e, onStack r = .error e → MayHalt (m.env d) (disassemble script).1 e.1 := by
  obtain ⟨r, hrun, hstack, -⟩ := execute_setScript d m script extra
  exact ⟨r, hrun, hstack ▸ runScript_bounded (m.env d) script m.stack⟩

/-! ## Frames -/

/-- A verdict that more elements at the bottom do not change. -/
def Firm : Halt → Prop
  | .returned result => result ≠ .incomplete ∧ result ≠ .error
  | _ => True

/-- The call does the same above more elements. -/
structure Lifts (base : Stack) (r r' : Call) : Prop where
  ok : ∀ s, r = .ok s → r' = .ok (s ++ base)
  error : ∀ e, r = .error e → Firm e.1 → r' = .error (e.1, e.2 ++ base)

namespace Lifts

variable {base s : Stack} {r : Call}

theorem of_ok : Lifts base (.ok s) (.ok (s ++ base)) :=
  ⟨fun t ht => by cases ht; rfl, nofun⟩

theorem of_error {h : Halt} : Lifts base (.error (h, s)) (.error (h, s ++ base)) :=
  ⟨nofun, fun e he _ => by cases he; rfl⟩

/-- A call that finds too few elements, or no checker, says nothing. -/
theorem of_weak {h : Halt} (hweak : ¬ Firm h) : Lifts base (.error (h, s)) r :=
  ⟨nofun, fun e he hfirm => by cases he; exact absurd hfirm hweak⟩

theorem incomplete : Lifts base (halt .incomplete s) r := of_weak fun h => h.1 rfl

theorem noIndex : Lifts base (halt .error s) r := of_weak fun h => h.2 rfl

end Lifts

section Frames

variable {env : Env} (base : Stack)

theorem digest_lifts (f : StackElement → Option StackElement) : ∀ s : Stack,
    Lifts base (Opcode.digest f s) (Opcode.digest f (s ++ base))
  | [] => .incomplete
  | a :: s => by
      rw [List.cons_append, Opcode.digest_cons, Opcode.digest_cons]
      cases f a with
      | none => exact .of_error
      | some image => exact .of_ok (s := image :: s)

theorem arithmetic_lifts (f : Int → Int → Int) : ∀ s : Stack,
    Lifts base (Opcode.arithmetic f s) (Opcode.arithmetic f (s ++ base))
  | [] | [a] => .incomplete
  | a :: b :: s => by
      rw [List.cons_append, List.cons_append, Opcode.arithmetic_cons, Opcode.arithmetic_cons]
      cases castToInt a with
      | none => exact .of_error
      | some x =>
          cases castToInt b with
          | none => exact .of_error
          | some y =>
              simp only
              cases int64Of (f x.toInt y.toInt) with
              | none => exact .of_error
              | some value => exact .of_ok (s := castFromInt value :: s)

theorem atIndex_lifts {f : Nat → StackElement → Stack → Stack}
    (hf : ∀ {idx elem s}, idx < s.length → f idx elem (s ++ base) = f idx elem s ++ base) :
    ∀ s : Stack, Lifts base (Opcode.atIndex f s) (Opcode.atIndex f (s ++ base))
  | [] => .incomplete
  | a :: s => by
      rw [List.cons_append, Opcode.atIndex_cons, Opcode.atIndex_cons]
      cases castToInt a with
      | none => exact .of_error
      | some idx =>
          simp only
          split
          · exact .noIndex
          · cases hidx : s[idx.toInt.toNat]? with
            | none => exact .noIndex
            | some elem =>
                obtain ⟨hlt, -⟩ := List.getElem?_eq_some_iff.mp hidx
                rw [List.getElem?_append_left hlt, hidx]
                simp only [hf hlt]
                exact .of_ok

theorem checkSignature_lifts (verify : Bool) : ∀ s : Stack,
    Lifts base (Opcode.checkSignature env verify s) (Opcode.checkSignature env verify (s ++ base))
  | [] | [a] => .incomplete
  | a :: b :: s => by
      rw [List.cons_append, List.cons_append, Opcode.checkSignature_cons,
        Opcode.checkSignature_cons]
      cases env.sigChecker with
      | none => exact .noIndex
      | some checker =>
          simp only
          split
          · exact .of_ok (s := _ :: s)
          · split
            · exact .of_error
            · exact .of_ok

/-- All opcodes but OP_DEPTH see only the elements they use. -/
theorem Opcode.exec_lifts {op : Opcode} (hop : op ≠ .depth) (s : Stack) :
    Lifts base (op.exec env s) (op.exec env (s ++ base)) := by
  cases op with
  | dup =>
      cases s with
      | nil => exact .incomplete
      | cons a s => simpa using Lifts.of_ok (s := a :: a :: s)
  | drop =>
      cases s with
      | nil => exact .incomplete
      | cons a s => simpa using Lifts.of_ok (s := s)
  | swap =>
      obtain _ | ⟨a, _ | ⟨b, s⟩⟩ := s
      · exact .incomplete
      · exact .incomplete
      · simpa using Lifts.of_ok (s := b :: a :: s)
  | rot =>
      obtain _ | ⟨a, _ | ⟨b, _ | ⟨c, s⟩⟩⟩ := s
      · exact .incomplete
      · exact .incomplete
      · exact .incomplete
      · simpa using Lifts.of_ok (s := c :: a :: b :: s)
  | over_ =>
      obtain _ | ⟨a, _ | ⟨b, s⟩⟩ := s
      · exact .incomplete
      · exact .incomplete
      · simpa using Lifts.of_ok (s := b :: a :: b :: s)
  | pick =>
      rw [exec_pick, exec_pick]
      exact atIndex_lifts base (fun _ => List.cons_append) s
  | roll =>
      rw [exec_roll, exec_roll]
      refine atIndex_lifts base (fun {idx elem s} hlt => ?_) s
      rw [List.eraseIdx_append_of_lt_length hlt, List.cons_append]
  | depth => exact absurd rfl hop
  | add =>
      rw [exec_add, exec_add]
      exact arithmetic_lifts base _ s
  | sub =>
      rw [exec_sub, exec_sub]
      exact arithmetic_lifts base _ s
  | equal =>
      obtain _ | ⟨a, _ | ⟨b, s⟩⟩ := s
      · exact .incomplete
      · exact .incomplete
      · simpa using Lifts.of_ok (s := truth (decide (a = b)) :: s)
  | equalVerify =>
      obtain _ | ⟨a, _ | ⟨b, s⟩⟩ := s
      · exact .incomplete
      · exact .incomplete
      · rw [List.cons_append, List.cons_append, exec_equalVerify, exec_equalVerify]
        split
        · exact .of_error
        · exact .of_ok
  | hash160 =>
      rw [exec_hash160, exec_hash160]
      exact digest_lifts base _ s
  | hash256 =>
      rw [exec_hash256, exec_hash256]
      exact digest_lifts base _ s
  | sha1 =>
      rw [exec_sha1, exec_sha1]
      exact digest_lifts base _ s
  | sha256 =>
      rw [exec_sha256, exec_sha256]
      exact digest_lifts base _ s
  | checkSig =>
      rw [exec_checkSig, exec_checkSig]
      exact checkSignature_lifts base false s
  | checkSigVerify =>
      rw [exec_checkSigVerify, exec_checkSigVerify]
      exact checkSignature_lifts base true s
  | checkMultiSig => exact .of_error
  | checkMultiSigVerify => exact .of_error
  | if_ => exact .of_error
  | notIf => exact .of_error
  | verify =>
      cases s with
      | nil => exact .incomplete
      | cons a s =>
          rw [List.cons_append, exec_verify, exec_verify]
          split
          · exact .of_error
          · exact .of_ok
  | return_ => exact .of_error

theorem Instruction.framed {i : Instruction} (hi : i ≠ .opcode Opcode.depth.toByte) :
    Framed (Instruction.exec env) i (fun s => s ++ base) (fun e => Firm e.1)
      (fun e => (e.1, e.2 ++ base)) := by
  intro s
  suffices h : Lifts base (i.exec env s) (i.exec env (s ++ base)) from ⟨h.ok, h.error⟩
  cases i with
  | push data => exact .of_ok (s := data :: s)
  | opcode b =>
      rw [Instruction.exec, Instruction.exec, execOpcode, execOpcode]
      cases hop : Opcode.ofByte b with
      | none => exact .of_error
      | some op =>
          refine Opcode.exec_lifts base (fun hdepth => hi ?_) s
          rw [← Opcode.toByte_of_ofByte hop, hdepth]

end Frames

/-- A script without OP_DEPTH does not see what lies under the elements it uses:
whatever it does on a stack, unless it stops for want of elements, it does on a
deeper one. -/
theorem runScript_frame (env : Env) {script : Bytes}
    (hdepth : Instruction.opcode Opcode.depth.toByte ∉ (disassemble script).1)
    (stack base : Stack) :
    Lifts base (runScript env script stack) (runScript env script (stack ++ base)) := by
  have hframed : ∀ i ∈ (disassemble script).1, Framed (Instruction.exec env) i
      (fun s => s ++ base) (fun e => Firm e.1) (fun e => (e.1, e.2 ++ base)) :=
    fun i hi => Instruction.framed base fun heq => hdepth (heq ▸ hi)
  obtain ⟨hok, herror⟩ := run_framed (s := stack) hframed
  rw [runScript_eq, runScript_eq]
  cases hrun : run (Instruction.exec env) (disassemble script).1 stack with
  | error e =>
      refine ⟨nofun, fun e' he' hfirm => ?_⟩
      cases he'
      rw [herror e hrun hfirm]
      rfl
  | ok s =>
      rw [hok s hrun]
      simp only [Except.bind]
      split
      · exact .of_ok
      · exact .of_error

theorem ScriptMachine.execute_frame (d : Digests) (m : ScriptMachine) {script : Bytes}
    (hdepth : Instruction.opcode Opcode.depth.toByte ∉ (disassemble script).1) (base : Stack) :
    ∃ r r', (m.setScript script).execute d script.length = some r ∧
      ({ m with stack := m.stack ++ base }.setScript script).execute d script.length = some r' ∧
      Lifts base (onStack r) (onStack r') := by
  obtain ⟨r, hrun, hstack, -⟩ := execute_setScript d m script 0
  obtain ⟨r', hrun', hstack', -⟩ :=
    execute_setScript d { m with stack := m.stack ++ base } script 0
  refine ⟨r, r', hrun, hrun', ?_⟩
  rw [hstack, hstack']
  exact runScript_frame (m.env d) hdepth m.stack base

theorem ScriptMachine.execute_frame_swap :
    ∃ r r', ({ init with stack := [[1], [2]] }.setScript [0x7c, 0x93]).execute
          ⟨fun _ => ⟨List.replicate 20 0, rfl⟩, fun _ => 0, fun _ => none⟩ 2 = some r ∧
      ({ init with stack := [[1], [2], [3]] }.setScript [0x7c, 0x93]).execute
          ⟨fun _ => ⟨List.replicate 20 0, rfl⟩, fun _ => 0, fun _ => none⟩ 2 = some r' ∧
      Lifts [[3]] (onStack r) (onStack r') := by
  have hdepth : Instruction.opcode Opcode.depth.toByte ∉ (disassemble [0x7c, 0x93]).1 := by decide
  exact execute_frame _ { init with stack := [[1], [2]] } hdepth [[3]]

end Cryptex.Script
