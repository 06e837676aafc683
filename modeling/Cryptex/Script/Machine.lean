import Cryptex.Encoding.Address
import Cryptex.Lib.Interpreter
import Mathlib.Data.Nat.Digits.Defs

/-!
# The script machine

`ScriptMachine` of `script.cpp`. The top of the stack is the head of the list.
`alt_stack_` is written by `reset` only and is left out. OpenSSL's digests are a
parameter; RIPEMD-160 may be missing from it.
-/

namespace Cryptex.Script

open Encoding

abbrev StackElement := Bytes

abbrev Stack := List StackElement

structure Digests where
  sha1 : Bytes → Payload
  sha256 : Bytes → Hash256
  ripemd160 : Bytes → Option Payload

abbrev SignatureChecker := Hash256 → Bytes → Bytes → Bool

/-- `ScriptResult` other than `OK`. -/
inductive ScriptResult where
  | false
  | error
  | incomplete
  | invalidOp
  | verifyFail
deriving DecidableEq

/-- How a call ends that does not return `OK`: with another result, with an
exception, or in undefined behaviour. -/
inductive Halt where
  | returned (result : ScriptResult)
  | thrown
  | undefined
deriving DecidableEq

/-- What exec_opcode reads and never writes. -/
structure Env where
  digests : Digests
  sigChecker : Option SignatureChecker
  currentSighash : Hash256

/-- A call on the stack. One that halts has changed the stack as well. -/
abbrev Call := Except (Halt × Stack) Stack

structure ScriptMachine where
  script : Bytes
  pc : Nat
  stack : Stack
  sigChecker : Option SignatureChecker
  currentSighash : Hash256

namespace ScriptMachine

/-- A `ScriptMachine` that was just constructed; `current_sighash_` is 0. -/
def init : ScriptMachine where
  script := []
  pc := 0
  stack := []
  sigChecker := none
  currentSighash := 0

def setScript (script : Bytes) (m : ScriptMachine) : ScriptMachine :=
  { m with script := script, pc := 0 }

def setSignatureChecker (checker : SignatureChecker) (m : ScriptMachine) : ScriptMachine :=
  { m with sigChecker := some checker }

def setSighash (sighash : Hash256) (m : ScriptMachine) : ScriptMachine :=
  { m with currentSighash := sighash }

/-- `reset` keeps the sighash. -/
def reset (m : ScriptMachine) : ScriptMachine :=
  { m with script := [], pc := 0, stack := [], sigChecker := none }

end ScriptMachine

/-! ## Numbers -/

/-- The loop of `cast_to_int` from position `i` on. -/
def orBytes : Nat → BitVec 64 → Bytes → BitVec 64
  | _, val, [] => val
  | i, val, b :: rest => orBytes (i + 1) (val ||| (BitVec.ofNat 64 b.toNat <<< (i * 8))) rest

/-- `none`: an `int64_t` is shifted by 64 bits or more, which is undefined. -/
def castToInt (elem : StackElement) : Option Int64 :=
  if 8 < elem.length then none else some (Int64.ofBitVec (orBytes 0 0 elem))

/-- The loop of `cast_from_int` takes the digits of `uval` to the base 256. -/
def castFromInt (val : Int64) : StackElement :=
  let elem := (Nat.digits 256 val.toUInt64.toNat).map UInt8.ofNat
  match elem.getLast? with
  | none => []
  | some last => if last &&& 0x80 ≠ 0 then elem ++ [0] else elem

/-- A sum or difference that leaves `int64_t` is undefined. -/
def int64Of (value : Int) : Option Int64 :=
  if -2 ^ 63 ≤ value ∧ value < 2 ^ 63 then some (Int64.ofInt value) else none

/-! ## Digests -/

namespace Digests

variable (d : Digests)

/-- `none`: `RIPEMD160 digest failed`. -/
def hash160 (data : StackElement) : Option StackElement :=
  (d.ripemd160 (d.sha256 data).toBytes).map Payload.bytes

def hash256 (data : StackElement) : StackElement := (d.sha256 (d.sha256 data).toBytes).toBytes

end Digests

/-! ## Opcodes -/

/-- The opcodes above `OP_PUSHDATA4` that exec_opcode has a case for. -/
inductive Opcode where
  | dup | drop | swap | rot | over_ | pick | roll | depth
  | add | sub
  | equal | equalVerify
  | hash160 | hash256 | sha1 | sha256
  | checkSig | checkSigVerify | checkMultiSig | checkMultiSigVerify
  | if_ | notIf | verify | return_
deriving DecidableEq

namespace Opcode

def toByte : Opcode → UInt8
  | dup => 0x76
  | drop => 0x75
  | swap => 0x7c
  | rot => 0x7b
  | over_ => 0x78
  | pick => 0x79
  | roll => 0x7a
  | depth => 0x74
  | add => 0x93
  | sub => 0x94
  | equal => 0x87
  | equalVerify => 0x88
  | hash160 => 0xa9
  | hash256 => 0xaa
  | sha1 => 0xa7
  | sha256 => 0xa8
  | checkSig => 0xac
  | checkSigVerify => 0xad
  | checkMultiSig => 0xae
  | checkMultiSigVerify => 0xaf
  | if_ => 0x63
  | notIf => 0x64
  | verify => 0x69
  | return_ => 0x6a

def all : List Opcode :=
  [dup, drop, swap, rot, over_, pick, roll, depth, add, sub, equal, equalVerify, hash160, hash256,
    sha1, sha256, checkSig, checkSigVerify, checkMultiSig, checkMultiSigVerify, if_, notIf, verify,
    return_]

/-- The case of the `switch` for a byte; `none` is the default. -/
def ofByte (b : UInt8) : Option Opcode := all.find? fun op => op.toByte = b

theorem ofByte_toByte (op : Opcode) : ofByte op.toByte = some op := by
  cases op <;> rfl

theorem toByte_of_ofByte {b : UInt8} {op : Opcode} (h : ofByte b = some op) : op.toByte = b := by
  rw [ofByte] at h
  have hfound := List.find?_some h
  exact of_decide_eq_true hfound

end Opcode

def popStack : Stack → Except (Halt × Stack) (StackElement × Stack)
  | [] => .error (.thrown, [])
  | elem :: stack => .ok (elem, stack)

/-- `return` of a result other than `OK`. -/
def halt (result : ScriptResult) (stack : Stack) : Call := .error (.returned result, stack)

/-- The answer of a comparison, as an element. -/
def truth (b : Bool) : StackElement := if b then [1] else [0]

theorem truth_inj {a b : Bool} : truth a = truth b ↔ a = b := by
  cases a <;> cases b <;> decide

namespace Opcode

variable (env : Env)

/-- `OP_HASH160` and the other digests: an exception is thrown after the element
was popped. -/
def digest (f : StackElement → Option StackElement) (stack : Stack) : Call :=
  if stack = [] then halt .incomplete stack
  else
    (popStack stack).bind fun p =>
      match f p.1 with
      | some image => .ok (image :: p.2)
      | none => .error (.thrown, p.2)

/-- `OP_ADD` and `OP_SUB`: `f` gets the top first. -/
def arithmetic (f : Int → Int → Int) (stack : Stack) : Call :=
  if stack.length < 2 then halt .incomplete stack
  else
    (popStack stack).bind fun a =>
      (popStack a.2).bind fun b =>
        match castToInt a.1, castToInt b.1 with
        | some x, some y =>
            match int64Of (f x.toInt y.toInt) with
            | some value => .ok (castFromInt value :: b.2)
            | none => .error (.undefined, b.2)
        | _, _ => .error (.undefined, b.2)

/-- `OP_PICK` and `OP_ROLL`: `f` gets the position, counted from the top, the
element there and the stack. -/
def atIndex (f : Nat → StackElement → Stack → Stack) (stack : Stack) : Call :=
  if stack = [] then halt .incomplete stack
  else
    (popStack stack).bind fun p =>
      match castToInt p.1 with
      | none => .error (.undefined, p.2)
      | some idx =>
          if idx.toInt < 0 then halt .error p.2
          else
            match p.2[idx.toInt.toNat]? with
            | none => halt .error p.2
            | some elem => .ok (f idx.toInt.toNat elem p.2)

/-- `OP_CHECKSIG` and `OP_CHECKSIGVERIFY`. -/
def checkSignature (verify : Bool) (stack : Stack) : Call :=
  if stack.length < 2 then halt .incomplete stack
  else
    (popStack stack).bind fun pubkey =>
      (popStack pubkey.2).bind fun signature =>
        match env.sigChecker with
        | none => halt .error signature.2
        | some checker =>
            let valid := checker env.currentSighash signature.1 pubkey.1
            if !verify then .ok (truth valid :: signature.2)
            else if !valid then halt .verifyFail signature.2
            else .ok signature.2

/-- A case of `exec_opcode`. -/
def exec (stack : Stack) : Opcode → Call
  | dup =>
      if stack = [] then halt .incomplete stack
      else (popStack stack).bind fun p => .ok (p.1 :: stack)
  | drop =>
      if stack = [] then halt .incomplete stack
      else (popStack stack).bind fun p => .ok p.2
  | swap =>
      if stack.length < 2 then halt .incomplete stack
      else (popStack stack).bind fun a => (popStack a.2).bind fun b => .ok (b.1 :: a.1 :: b.2)
  | rot =>
      if stack.length < 3 then halt .incomplete stack
      else
        (popStack stack).bind fun a => (popStack a.2).bind fun b => (popStack b.2).bind fun c =>
          .ok (c.1 :: a.1 :: b.1 :: c.2)
  | over_ =>
      if stack.length < 2 then halt .incomplete stack
      else (popStack stack).bind fun a => (popStack a.2).bind fun b => .ok (b.1 :: stack)
  | pick => atIndex (fun _ elem rest => elem :: rest) stack
  | roll => atIndex (fun idx elem rest => elem :: rest.eraseIdx idx) stack
  | depth => .ok (castFromInt (Int64.ofNat stack.length) :: stack)
  | add => arithmetic (fun a b => a + b) stack
  | sub => arithmetic (fun a b => b - a) stack
  | equal =>
      if stack.length < 2 then halt .incomplete stack
      else (popStack stack).bind fun a => (popStack a.2).bind fun b => .ok (truth (a.1 = b.1) :: b.2)
  | equalVerify =>
      if stack.length < 2 then halt .incomplete stack
      else
        (popStack stack).bind fun a => (popStack a.2).bind fun b =>
          if a.1 ≠ b.1 then halt .verifyFail b.2 else .ok b.2
  | hash160 => digest env.digests.hash160 stack
  | hash256 => digest (fun data => some (env.digests.hash256 data)) stack
  | sha1 => digest (fun data => some (env.digests.sha1 data).bytes) stack
  | sha256 => digest (fun data => some (env.digests.sha256 data).toBytes) stack
  | checkSig => checkSignature env false stack
  | checkSigVerify => checkSignature env true stack
  | checkMultiSig | checkMultiSigVerify | if_ | notIf => halt .invalidOp stack
  | verify =>
      if stack = [] then halt .incomplete stack
      else (popStack stack).bind fun p => if p.1 = [0] then halt .verifyFail p.2 else .ok p.2
  | return_ => halt .false stack

section Specs

variable {env} {a b c : StackElement} {stack : Stack}

@[simp] theorem digest_cons {f : StackElement → Option StackElement} : digest f (a :: stack) =
    match f a with
    | some image => .ok (image :: stack)
    | none => .error (.thrown, stack) := by
  rw [digest, if_neg (List.cons_ne_nil a stack)]
  rfl

theorem two_le_length : ¬ (a :: b :: stack).length < 2 :=
  Nat.not_lt.mpr (Nat.le_add_left 2 stack.length)

@[simp] theorem arithmetic_cons {f : Int → Int → Int} : arithmetic f (a :: b :: stack) =
    match castToInt a, castToInt b with
    | some x, some y =>
        match int64Of (f x.toInt y.toInt) with
        | some value => .ok (castFromInt value :: stack)
        | none => .error (.undefined, stack)
    | _, _ => .error (.undefined, stack) := by
  rw [arithmetic, if_neg two_le_length]
  rfl

@[simp] theorem atIndex_cons {f : Nat → StackElement → Stack → Stack} :
    atIndex f (a :: stack) =
      match castToInt a with
      | none => .error (.undefined, stack)
      | some idx =>
          if idx.toInt < 0 then halt .error stack
          else
            match stack[idx.toInt.toNat]? with
            | none => halt .error stack
            | some elem => .ok (f idx.toInt.toNat elem stack) := by
  rw [atIndex, if_neg (List.cons_ne_nil a stack)]
  rfl

@[simp] theorem checkSignature_cons {verify : Bool} : checkSignature env verify (a :: b :: stack) =
    match env.sigChecker with
    | none => halt .error stack
    | some checker =>
        if !verify then .ok (truth (checker env.currentSighash b a) :: stack)
        else if !checker env.currentSighash b a then halt .verifyFail stack
        else .ok stack := by
  rw [checkSignature, if_neg two_le_length]
  rfl

theorem exec_pick : pick.exec env stack = atIndex (fun _ elem rest => elem :: rest) stack := rfl

theorem exec_roll :
    roll.exec env stack = atIndex (fun idx elem rest => elem :: rest.eraseIdx idx) stack := rfl

theorem exec_add : add.exec env stack = arithmetic (fun a b => a + b) stack := rfl

theorem exec_sub : sub.exec env stack = arithmetic (fun a b => b - a) stack := rfl

theorem exec_hash160 : hash160.exec env stack = digest env.digests.hash160 stack := rfl

theorem exec_hash256 :
    hash256.exec env stack = digest (fun data => some (env.digests.hash256 data)) stack := rfl

theorem exec_sha1 :
    sha1.exec env stack = digest (fun data => some (env.digests.sha1 data).bytes) stack := rfl

theorem exec_sha256 :
    sha256.exec env stack = digest (fun data => some (env.digests.sha256 data).toBytes) stack := rfl

theorem exec_checkSig : checkSig.exec env stack = checkSignature env false stack := rfl

theorem exec_checkSigVerify : checkSigVerify.exec env stack = checkSignature env true stack := rfl

@[simp] theorem exec_dup : dup.exec env (a :: stack) = .ok (a :: a :: stack) := by
  rw [exec, if_neg (List.cons_ne_nil a stack)]
  rfl

@[simp] theorem exec_drop : drop.exec env (a :: stack) = .ok stack := by
  rw [exec, if_neg (List.cons_ne_nil a stack)]
  rfl

@[simp] theorem exec_swap : swap.exec env (a :: b :: stack) = .ok (b :: a :: stack) := by
  rw [exec, if_neg two_le_length]
  rfl

@[simp] theorem exec_rot : rot.exec env (a :: b :: c :: stack) = .ok (c :: a :: b :: stack) := by
  have hthree : ¬ (a :: b :: c :: stack).length < 3 :=
    Nat.not_lt.mpr (Nat.le_add_left 3 stack.length)
  rw [exec, if_neg hthree]
  rfl

@[simp] theorem exec_over : over_.exec env (a :: b :: stack) = .ok (b :: a :: b :: stack) := by
  rw [exec, if_neg two_le_length]
  rfl

@[simp] theorem exec_equal :
    equal.exec env (a :: b :: stack) = .ok (truth (decide (a = b)) :: stack) := by
  rw [exec, if_neg two_le_length]
  rfl

@[simp] theorem exec_equalVerify : equalVerify.exec env (a :: b :: stack) =
    if a ≠ b then halt .verifyFail stack else .ok stack := by
  rw [exec, if_neg two_le_length]
  rfl

@[simp] theorem exec_verify : verify.exec env (a :: stack) =
    if a = [0] then halt .verifyFail stack else .ok stack := by
  rw [exec, if_neg (List.cons_ne_nil a stack)]
  rfl

end Specs

end Opcode

def execOpcode (env : Env) (op : UInt8) (stack : Stack) : Call :=
  match Opcode.ofByte op with
  | some opcode => opcode.exec env stack
  | none => halt .invalidOp stack

/-! ## Steps -/

namespace ScriptMachine

variable (d : Digests)

/-- A call on the machine: one that halts leaves the machine as it is then. -/
abbrev MachineCall := Except (Halt × ScriptMachine) ScriptMachine

def env (m : ScriptMachine) : Env := ⟨d, m.sigChecker, m.currentSighash⟩

def pushData (len : Nat) (m : ScriptMachine) : MachineCall :=
  if m.script.length < m.pc + len then .error (.returned .invalidOp, m)
  else
    .ok { m with
      pc := m.pc + len
      stack := (m.script.drop m.pc).take len :: m.stack }

/-- `OP_PUSHDATA1`, `OP_PUSHDATA2` and `OP_PUSHDATA4`: the length in `width` bytes, the
lowest first. -/
def pushCounted (width : Nat) (m : ScriptMachine) : MachineCall :=
  if m.script.length < m.pc + width then .error (.returned .invalidOp, m)
  else
    let len := fromBytes ((m.script.drop m.pc).take width).reverse
    pushData len { m with pc := m.pc + width }

def step (m : ScriptMachine) : MachineCall :=
  match m.script[m.pc]? with
  | none => .error (.returned .error, m)
  | some op =>
      let m := { m with pc := m.pc + 1 }
      if op = 0 then .ok { m with stack := [] :: m.stack }
      else if op ≤ 0x4b then pushData op.toNat m
      else if op = 0x4c then pushCounted 1 m
      else if op = 0x4d then pushCounted 2 m
      else if op = 0x4e then pushCounted 4 m
      else
        match execOpcode (m.env d) op m.stack with
        | .ok stack => .ok { m with stack := stack }
        | .error (halt, stack) => .error (halt, { m with stack := stack })

/-- The loop of `execute` with `fuel` steps; `none` when it still runs. -/
def execute : Nat → ScriptMachine → Option MachineCall :=
  Interpreter.loop (fun m => m.script.length ≤ m.pc) (step d)

end ScriptMachine

end Cryptex.Script
