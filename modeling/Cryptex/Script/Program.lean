import Cryptex.Script.Machine

/-!
# Scripts as programs

The bytes of a script as a list of instructions. `execute` does what these
instructions do one after the other; a push whose data the script does not have
is INVALID_OP.
-/

namespace Cryptex.Script

open Codec Interpreter

inductive Instruction where
  | push (data : StackElement)
  | opcode (op : UInt8)
deriving DecidableEq

namespace Instruction

def exec (env : Env) : Instruction → Stack → Call
  | push data, stack => .ok (data :: stack)
  | opcode op, stack => execOpcode env op stack

end Instruction

/-! ## Reading instructions -/

def takeData (len : Nat) (data : Bytes) : Option (Instruction × Bytes) :=
  if data.length < len then none else some (.push (data.take len), data.drop len)

def takeCounted (width : Nat) (data : Bytes) : Option (Instruction × Bytes) :=
  if data.length < width then none
  else takeData (fromBytes (data.take width).reverse) (data.drop width)

/-- The instruction at the front of the code. -/
def fetch : Decoder Instruction UInt8
  | [] => none
  | op :: rest =>
      if op = 0 then some (.push [], rest)
      else if op ≤ 0x4b then takeData op.toNat rest
      else if op = 0x4c then takeCounted 1 rest
      else if op = 0x4d then takeCounted 2 rest
      else if op = 0x4e then takeCounted 4 rest
      else some (.opcode op, rest)

theorem length_of_takeData {len : Nat} {data rest : Bytes} {i : Instruction}
    (h : takeData len data = some (i, rest)) : rest.length ≤ data.length := by
  rw [takeData] at h
  split at h
  · cases h
  · cases h
    rw [List.length_drop]
    exact Nat.sub_le _ _

theorem length_of_takeCounted {width : Nat} {data rest : Bytes} {i : Instruction}
    (h : takeCounted width data = some (i, rest)) : rest.length ≤ data.length := by
  rw [takeCounted] at h
  split at h
  · cases h
  · refine (length_of_takeData h).trans ?_
    rw [List.length_drop]
    exact Nat.sub_le _ _

theorem consumes_fetch : Consumes fetch := by
  intro data i rest h
  cases data with
  | nil => cases h
  | cons op tail =>
      rw [fetch] at h
      refine Nat.lt_succ_of_le ?_
      split_ifs at h
      · cases h
        exact Nat.le_refl _
      · exact length_of_takeData h
      · exact length_of_takeCounted h
      · exact length_of_takeCounted h
      · exact length_of_takeCounted h
      · cases h
        exact Nat.le_refl _

/-- The instructions of a script, and the bytes of a truncated push at its end. -/
def disassemble (script : Bytes) : List Instruction × Bytes := items fetch script

/-! ## Writing instructions -/

namespace Instruction

/-- The shortest push of the data, and an opcode as it is. -/
def encode : Instruction → Bytes
  | push data =>
      if data.length ≤ 0x4b then UInt8.ofNat data.length :: data
      else if data.length < 2 ^ 8 then 0x4c :: ((toPaddedBytes 1 data.length).reverse ++ data)
      else if data.length < 2 ^ 16 then 0x4d :: ((toPaddedBytes 2 data.length).reverse ++ data)
      else 0x4e :: ((toPaddedBytes 4 data.length).reverse ++ data)
  | opcode op => [op]

/-- Data that a script can push, and opcodes that are no push. -/
def Encodable : Instruction → Prop
  | push data => data.length < 2 ^ 32
  | opcode op => 0x4e < op

end Instruction

theorem takeData_append (data rest : Bytes) :
    takeData data.length (data ++ rest) = some (.push data, rest) := by
  rw [takeData, if_neg (by rw [List.length_append]; omega), List.take_left, List.drop_left]

theorem takeCounted_append {width : Nat} {data : Bytes} (h : data.length < 256 ^ width)
    (rest : Bytes) :
    takeCounted width ((toPaddedBytes width data.length).reverse ++ (data ++ rest)) =
      some (.push data, rest) := by
  have hwidth : ((toPaddedBytes width data.length).reverse).length = width := by
    rw [List.length_reverse, length_toPaddedBytes]
  rw [takeCounted, if_neg (by rw [List.length_append, hwidth]; omega),
    List.take_left' hwidth, List.drop_left' hwidth, List.reverse_reverse,
    fromBytes_toPaddedBytes h, takeData_append]

/-- A script that was written from instructions is read back. -/
theorem fetch_encode {i : Instruction} (h : i.Encodable) (rest : Bytes) :
    fetch (i.encode ++ rest) = some (i, rest) := by
  cases i with
  | opcode op =>
      have hop : 0x4e < op.toNat := UInt8.lt_iff_toNat_lt.mp h
      have hle : ¬ op ≤ 0x4b := fun hle => by
        have : op.toNat ≤ 0x4b := UInt8.le_iff_toNat_le.mp hle
        omega
      have hne : ∀ {b : UInt8}, b.toNat ≤ 0x4e → op ≠ b := by
        rintro b hb rfl
        omega
      rw [Instruction.encode, List.singleton_append, fetch, if_neg (hne (by decide)), if_neg hle,
        if_neg (hne (by decide)), if_neg (hne (by decide)), if_neg (hne (by decide))]
  | push data =>
      rw [Instruction.encode]
      split_ifs with h1 h2 h3
      · have hnat : (UInt8.ofNat data.length).toNat = data.length := by
          rw [UInt8.toNat_ofNat']
          omega
        rw [List.cons_append, fetch]
        by_cases hnil : data = []
        · subst hnil
          rfl
        · have hpos := List.length_pos_of_ne_nil hnil
          rw [if_neg fun heq => by rw [heq] at hnat; exact absurd hnat.symm (Nat.ne_of_gt hpos),
            if_pos (UInt8.le_iff_toNat_le.mpr (by rw [hnat]; exact h1)), hnat, takeData_append]
      · rw [List.cons_append, List.append_assoc, fetch, if_neg (by decide), if_neg (by decide),
          if_pos rfl, takeCounted_append (by rw [pow_one]; exact h2)]
      · rw [List.cons_append, List.append_assoc, fetch, if_neg (by decide), if_neg (by decide),
          if_neg (by decide), if_pos rfl, takeCounted_append (by norm_num; exact h3)]
      · rw [List.cons_append, List.append_assoc, fetch, if_neg (by decide), if_neg (by decide),
          if_neg (by decide), if_neg (by decide), if_pos rfl,
          takeCounted_append (by norm_num; exact h)]

/-- The script of a list of instructions. -/
def assemble (is : List Instruction) : Bytes := is.flatMap Instruction.encode

theorem disassemble_assemble_append {is : List Instruction} (h : ∀ i ∈ is, i.Encodable)
    (rest : Bytes) :
    disassemble (assemble is ++ rest) = (is ++ (disassemble rest).1, (disassemble rest).2) :=
  consumes_fetch.items_flatMap fun i hi => fetch_encode (h i hi)

theorem disassemble_assemble {is : List Instruction} (h : ∀ i ∈ is, i.Encodable) :
    disassemble (assemble is) = (is, []) := by
  have heq := disassemble_assemble_append h []
  rwa [List.append_nil, show disassemble [] = ([], []) from rfl, List.append_nil] at heq

/-! ## Execution -/

/-- What the instructions of a script do to a stack. -/
def runScript (env : Env) (script : Bytes) : Stack → Call :=
  runCode fetch (Instruction.exec env) (fun stack => (.returned .invalidOp, stack)) script

theorem runScript_eq (env : Env) (script : Bytes) (stack : Stack) :
    runScript env script stack =
      (run (Instruction.exec env) (disassemble script).1 stack).bind fun t =>
        if (disassemble script).2 = [] then .ok t else halt .invalidOp t := rfl

theorem runScript_assemble (env : Env) {is : List Instruction} (h : ∀ i ∈ is, i.Encodable)
    (stack : Stack) :
    runScript env (assemble is) stack = run (Instruction.exec env) is stack := by
  rw [runScript_eq, disassemble_assemble h]
  cases run (Instruction.exec env) is stack <;> rfl

namespace ScriptMachine

variable (d : Digests)

/-- The code that is left. -/
def code (m : ScriptMachine) : Bytes := m.script.drop m.pc

/-- A machine that executes a script. -/
structure Runs (script : Bytes) (env : Env) (m : ScriptMachine) : Prop where
  script_eq : m.script = script
  env_eq : m.env d = env
  pc_le : m.pc ≤ m.script.length

/-- The stack of a machine that halts. -/
def haltStack (e : Halt × ScriptMachine) : Halt × Stack := (e.1, e.2.stack)

/-- What a call on the machine says of its stack. -/
def onStack (r : MachineCall) : Call := (r.map stack).mapError haltStack

/-- A call on the machine does the instruction that is read from the code, or
stops where none can be read. -/
def Follows (script : Bytes) (env : Env) (stack : Stack) (r : MachineCall) :
    Option (Instruction × Bytes) → Prop
  | some (i, rest) =>
      onStack r = i.exec env stack ∧ ∀ m', r = .ok m' → Runs d script env m' ∧ m'.code = rest
  | none => ∃ e, r = .error e ∧ haltStack e = (.returned .invalidOp, stack)

variable {d} {script : Bytes} {env : Env} {m : ScriptMachine}

theorem Runs.length_code (h : Runs d script env m) :
    m.script.length = m.pc + m.code.length := by
  have hpc := h.pc_le
  rw [code, List.length_drop]
  omega

/-- The program counter moves on in the code. -/
theorem Runs.advance (h : Runs d script env m) {n : Nat} (hn : n ≤ m.code.length) :
    Runs d script env { m with pc := m.pc + n } := by
  have hlen := h.length_code
  exact ⟨h.script_eq, h.env_eq, show m.pc + n ≤ m.script.length by omega⟩

theorem code_advance (n : Nat) : code { m with pc := m.pc + n } = m.code.drop n :=
  List.drop_drop.symm

theorem Runs.pushData_follows (h : Runs d script env m) (len : Nat) :
    Follows d script env m.stack (m.pushData len) (takeData len m.code) := by
  have hlen := h.length_code
  rw [pushData, takeData]
  by_cases hlt : m.code.length < len
  · rw [if_pos hlt, if_pos (by omega)]
    exact ⟨_, rfl, rfl⟩
  · rw [if_neg hlt, if_neg (by omega)]
    refine ⟨rfl, fun m' hm' => ?_⟩
    cases hm'
    obtain ⟨hscript, henv, hpc⟩ := h.advance (Nat.le_of_not_lt hlt)
    exact ⟨⟨hscript, henv, hpc⟩, code_advance len⟩

theorem Runs.pushCounted_follows (h : Runs d script env m) (width : Nat) :
    Follows d script env m.stack (m.pushCounted width) (takeCounted width m.code) := by
  have hlen := h.length_code
  rw [pushCounted, takeCounted]
  by_cases hlt : m.code.length < width
  · rw [if_pos hlt, if_pos (by omega)]
    exact ⟨_, rfl, rfl⟩
  · rw [if_neg hlt, if_neg (by omega), ← code_advance]
    exact (h.advance (Nat.le_of_not_lt hlt)).pushData_follows _

theorem Runs.step_follows (h : Runs d script env m) (hcode : m.code ≠ []) :
    Follows d script env m.stack (m.step d) (fetch m.code) := by
  have hlen := h.length_code
  obtain ⟨op, rest, hcons⟩ := List.exists_cons_of_ne_nil hcode
  have hop : m.script[m.pc]? = some op := by
    rw [← List.head?_drop, ← code, hcons, List.head?_cons]
  have hnext : code { m with pc := m.pc + 1 } = rest := by
    rw [code_advance, hcons, List.drop_one, List.tail_cons]
  have hruns : Runs d script env { m with pc := m.pc + 1 } :=
    h.advance (by rw [hcons]; exact Nat.le_add_left 1 _)
  rw [step, hop, hcons, fetch]
  simp only
  split_ifs
  · refine ⟨rfl, fun m' hm' => ?_⟩
    cases hm'
    exact ⟨⟨hruns.script_eq, hruns.env_eq, hruns.pc_le⟩, hnext⟩
  · exact hnext ▸ hruns.pushData_follows _
  · exact hnext ▸ hruns.pushCounted_follows 1
  · exact hnext ▸ hruns.pushCounted_follows 2
  · exact hnext ▸ hruns.pushCounted_follows 4
  · rw [hruns.env_eq]
    cases hexec : execOpcode env op m.stack with
    | error e => exact ⟨hexec.symm, nofun⟩
    | ok stack =>
        refine ⟨hexec.symm, fun m' hm' => ?_⟩
        cases hm'
        exact ⟨⟨hruns.script_eq, hruns.env_eq, hruns.pc_le⟩, hnext⟩

theorem implements (script : Bytes) (env : Env) :
    Implements (fun m : ScriptMachine => decide (m.script.length ≤ m.pc)) (step d)
      (Runs d script env) fetch (Instruction.exec env)
      (fun stack => (.returned .invalidOp, stack)) code ScriptMachine.stack haltStack where
  halted_iff m := by rw [decide_eq_true_iff, code, List.drop_eq_nil_iff]
  fetched := by
    intro m i rest h hfetch
    have hcode : m.code ≠ [] := fun hnil => by rw [hnil] at hfetch; cases hfetch
    have hfollows := h.step_follows hcode
    rw [hfetch] at hfollows
    exact hfollows
  unreadable := by
    intro m h hcode hfetch
    have hfollows := h.step_follows hcode
    rw [hfetch] at hfollows
    exact hfollows

/-- `execute` comes to an end within one step for each byte left, and does what
the instructions of these bytes do. The machine that returns OK is at the end of
its script; nothing but its stack has changed. -/
theorem execute_eq_runScript (m : ScriptMachine) (hpc : m.pc ≤ m.script.length) {fuel : Nat}
    (hfuel : m.script.length - m.pc ≤ fuel) :
    ∃ r, m.execute d fuel = some r ∧ onStack r = runScript (m.env d) m.code m.stack ∧
      ∀ m', r = .ok m' → m' = { m with pc := m.script.length, stack := m'.stack } := by
  have hruns : Runs d m.script (m.env d) m := ⟨rfl, rfl, hpc⟩
  obtain ⟨r, hloop, hr, hend⟩ := (implements m.script (m.env d)).loop_eq consumes_fetch hruns
    (n := fuel) (by rw [code, List.length_drop]; exact hfuel)
  refine ⟨r, hloop, hr, fun m' hm' => ?_⟩
  obtain ⟨⟨hscript, henv, hpc'⟩, hcode⟩ := hend m' hm'
  have hge : m'.script.length ≤ m'.pc := List.drop_eq_nil_iff.mp hcode
  obtain ⟨script', pc', stack', checker', sighash'⟩ := m'
  obtain ⟨-, rfl, rfl⟩ := Env.mk.inj henv
  obtain rfl : script' = m.script := hscript
  obtain rfl : pc' = m.script.length := Nat.le_antisymm hpc' hge
  rfl

/-- The bytes of a script mean its instructions: on the stack that was there
before, `execute` does what they do. -/
theorem execute_setScript (d : Digests) (m : ScriptMachine) (script : Bytes) (extra : Nat) :
    ∃ r, (m.setScript script).execute d (script.length + extra) = some r ∧
      onStack r = runScript (m.env d) script m.stack ∧
      ∀ m', r = .ok m' →
        m' = { m with script := script, pc := script.length, stack := m'.stack } :=
  execute_eq_runScript (m.setScript script) (Nat.zero_le _) (Nat.le_add_right _ extra)

end ScriptMachine

end Cryptex.Script
