import Cryptex.Script.Program

/-!
# Payments to a key hash

The scripts that `create_p2pkh_script` and `create_p2pkh_sig_script` write, and
what the machine makes of the two when it executes one after the other.
-/

namespace Cryptex.Script

open Codec Encoding Interpreter

/-! ## The scripts -/

def createP2pkhScript (hash : Payload) : Bytes :=
  [Opcode.dup.toByte, Opcode.hash160.toByte, 20] ++ hash.bytes ++
    [Opcode.equalVerify.toByte, Opcode.checkSig.toByte]

/-- The length byte is cut off at eight bits. -/
def pushPrefix (data : Bytes) : Bytes :=
  if data.length ≤ 75 then [UInt8.ofNat data.length] else [0x4c, UInt8.ofNat data.length]

def createP2pkhSigScript (signature pubkey : Bytes) : Bytes :=
  pushPrefix signature ++ signature ++ (pushPrefix pubkey ++ pubkey)

theorem length_hashBytes {script : Bytes} (h : script.length = 25) :
    ((script.drop 3).take 20).length = addressHashLength := by
  rw [List.length_take, List.length_drop, h]
  rfl

def extractP2pkhAddress (script : Bytes) : Option Payload :=
  if h : script.length = 25 then
    if script[0]? ≠ some Opcode.dup.toByte then none
    else if script[1]? ≠ some Opcode.hash160.toByte then none
    else if script[2]? ≠ some 20 then none
    else if script[23]? ≠ some Opcode.equalVerify.toByte then none
    else if script[24]? ≠ some Opcode.checkSig.toByte then none
    else some ⟨(script.drop 3).take 20, length_hashBytes h⟩
  else none

theorem length_createP2pkhScript (hash : Payload) : (createP2pkhScript hash).length = 25 := by
  rw [createP2pkhScript, List.length_append, List.length_append, hash.length_eq]
  rfl

/-- The scripts that a key hash can be extracted from are those that pay to it. -/
theorem extractP2pkhAddress_eq_some {script : Bytes} {hash : Payload} :
    extractP2pkhAddress script = some hash ↔ script = createP2pkhScript hash := by
  constructor
  · intro h
    rw [extractP2pkhAddress] at h
    split_ifs at h with hlen h0 h1 h2 h23 h24
    cases h
    rw [ne_eq, not_not] at h0 h1 h2 h23 h24
    have hhead : script.take 3 = [Opcode.dup.toByte, Opcode.hash160.toByte, 20] := by
      rw [List.take_add_one, List.take_add_one, List.take_add_one, List.take_zero, h0, h1, h2]
      rfl
    have htail : script.drop 23 = [Opcode.equalVerify.toByte, Opcode.checkSig.toByte] := by
      rw [List.drop_eq_getElem?_toList_append, List.drop_eq_getElem?_toList_append, h23, h24,
        List.drop_eq_nil_of_le (by omega)]
      rfl
    rw [createP2pkhScript, ← hhead, ← htail]
    conv_lhs => rw [← List.take_append_drop 3 script, ← List.take_append_drop 20 (script.drop 3),
      List.drop_drop]
    rw [List.append_assoc]
  · rintro rfl
    have hlen : hash.bytes.length = 20 := hash.length_eq
    have hbytes : (createP2pkhScript hash).drop 3 =
        hash.bytes ++ [Opcode.equalVerify.toByte, Opcode.checkSig.toByte] := rfl
    have htail : ∀ i, (createP2pkhScript hash)[23 + i]? =
        [Opcode.equalVerify.toByte, Opcode.checkSig.toByte][i]? := by
      intro i
      rw [show 23 + i = 3 + (20 + i) by omega, ← List.getElem?_drop, hbytes,
        List.getElem?_append_right (by omega), hlen, Nat.add_sub_cancel_left]
    have htake : ((createP2pkhScript hash).drop 3).take 20 = hash.bytes := by
      rw [hbytes, List.take_left' hlen]
    have h0 : (createP2pkhScript hash)[0]? = some Opcode.dup.toByte := rfl
    have h1 : (createP2pkhScript hash)[1]? = some Opcode.hash160.toByte := rfl
    have h2 : (createP2pkhScript hash)[2]? = some 20 := rfl
    have h23 : (createP2pkhScript hash)[23]? = some Opcode.equalVerify.toByte := htail 0
    have h24 : (createP2pkhScript hash)[24]? = some Opcode.checkSig.toByte := htail 1
    rw [extractP2pkhAddress, dif_pos (length_createP2pkhScript hash), if_neg (not_not.mpr h0),
      if_neg (not_not.mpr h1), if_neg (not_not.mpr h2), if_neg (not_not.mpr h23),
      if_neg (not_not.mpr h24)]
    cases hash
    simp only [htake]

/-! ## The instructions -/

def p2pkhInstructions (hash : Payload) : List Instruction :=
  [.opcode Opcode.dup.toByte, .opcode Opcode.hash160.toByte, .push hash.bytes,
    .opcode Opcode.equalVerify.toByte, .opcode Opcode.checkSig.toByte]

theorem assemble_p2pkhInstructions (hash : Payload) :
    assemble (p2pkhInstructions hash) = createP2pkhScript hash := by
  have hlen : hash.bytes.length = 20 := hash.length_eq
  simp only [assemble, p2pkhInstructions, List.flatMap_cons, List.flatMap_nil,
    Instruction.encode, hlen]
  rfl

theorem encodable_p2pkhInstructions (hash : Payload) :
    ∀ i ∈ p2pkhInstructions hash, i.Encodable := by
  have hlen : hash.bytes.length = 20 := hash.length_eq
  intro i hi
  simp only [p2pkhInstructions, List.mem_cons, List.not_mem_nil, or_false] at hi
  obtain rfl | rfl | rfl | rfl | rfl := hi
  · exact UInt8.lt_iff_toNat_lt.mpr (by decide)
  · exact UInt8.lt_iff_toNat_lt.mpr (by decide)
  · exact lt_of_eq_of_lt hlen (by norm_num)
  · exact UInt8.lt_iff_toNat_lt.mpr (by decide)
  · exact UInt8.lt_iff_toNat_lt.mpr (by decide)

theorem encode_push {data : Bytes} (h : data.length ≤ 255) :
    (Instruction.push data).encode = pushPrefix data ++ data := by
  rw [Instruction.encode, pushPrefix]
  by_cases hshort : data.length ≤ 75
  · rw [if_pos hshort, if_pos hshort]
    rfl
  · rw [if_neg hshort, if_neg hshort, if_pos (by omega)]
    rfl

theorem assemble_sigScript {signature pubkey : Bytes} (hsig : signature.length ≤ 255)
    (hpub : pubkey.length ≤ 255) :
    assemble [.push signature, .push pubkey] = createP2pkhSigScript signature pubkey := by
  rw [assemble, List.flatMap_cons, List.flatMap_cons, List.flatMap_nil, List.append_nil,
    encode_push hsig, encode_push hpub]
  rfl

/-! ## Spending -/

/-- What the script of a payment to `hash` does with a public key over a
signature. -/
def redeem (env : Env) (hash : Payload) (signature pubkey : Bytes) (rest : Stack) : Call :=
  match env.digests.hash160 pubkey with
  | none => .error (.thrown, pubkey :: signature :: rest)
  | some image =>
      if image ≠ hash.bytes then halt .verifyFail (pubkey :: signature :: rest)
      else
        match env.sigChecker with
        | none => halt .error rest
        | some checker => .ok (truth (checker env.currentSighash signature pubkey) :: rest)

theorem run_p2pkhInstructions (env : Env) (hash : Payload) (signature pubkey : Bytes)
    (rest : Stack) :
    run (Instruction.exec env) (p2pkhInstructions hash) (pubkey :: signature :: rest) =
      redeem env hash signature pubkey rest := by
  simp only [p2pkhInstructions, run_cons, run_nil, Instruction.exec, execOpcode,
    Opcode.ofByte_toByte, Opcode.exec_dup, Opcode.exec_hash160, Opcode.digest_cons, Except.bind, redeem]
  cases env.digests.hash160 pubkey with
  | none => rfl
  | some image =>
      by_cases heq : image = hash.bytes
      · subst heq
        simp only [Opcode.exec_equalVerify, ne_eq, not_true_eq_false, if_false, Opcode.exec_checkSig,
          Opcode.checkSignature_cons]
        cases env.sigChecker <;> rfl
      · simp only [Opcode.exec_equalVerify, if_pos (Ne.symm heq), if_pos heq]
        rfl

theorem redeem_true_iff {env : Env} {hash : Payload} {signature pubkey : Bytes} {rest : Stack} :
    (∃ stack, redeem env hash signature pubkey rest = .ok stack ∧
        stack.head? = some (truth true)) ↔
      env.digests.hash160 pubkey = some hash.bytes ∧ ∃ checker, env.sigChecker = some checker ∧
        checker env.currentSighash signature pubkey = true := by
  rw [redeem]
  cases env.digests.hash160 pubkey with
  | none => simp
  | some image =>
      by_cases heq : image = hash.bytes
      · cases env.sigChecker with
        | none => simp [heq, halt]
        | some checker => simp [heq, truth_inj]
      · simp [heq, halt]

namespace ScriptMachine

theorem ok_iff_onStack {r : MachineCall} {P : Stack → Prop} :
    (∃ m, r = .ok m ∧ P m.stack) ↔ ∃ stack, onStack r = .ok stack ∧ P stack := by
  cases r with
  | error e =>
      constructor
      · rintro ⟨m, h, -⟩
        cases h
      · rintro ⟨stack, h, -⟩
        cases h
  | ok m =>
      constructor
      · rintro ⟨m', h, hP⟩
        cases h
        exact ⟨_, rfl, hP⟩
      · rintro ⟨stack, h, hP⟩
        cases h
        exact ⟨m, rfl, hP⟩

variable (d : Digests) (m : ScriptMachine)

/-- The signature script leaves its two pushes on the stack. -/
theorem execute_sigScript {signature pubkey : Bytes} (hsig : signature.length ≤ 255)
    (hpub : pubkey.length ≤ 255) (extra : Nat) :
    (m.setScript (createP2pkhSigScript signature pubkey)).execute d
        ((createP2pkhSigScript signature pubkey).length + extra) =
      some (.ok { m with
        script := createP2pkhSigScript signature pubkey
        pc := (createP2pkhSigScript signature pubkey).length
        stack := pubkey :: signature :: m.stack }) := by
  obtain ⟨r, hrun, hstack, hend⟩ :=
    execute_setScript d m (createP2pkhSigScript signature pubkey) extra
  have hencodable : ∀ i ∈ [Instruction.push signature, .push pubkey], i.Encodable := by
    intro i hi
    simp only [List.mem_cons, List.not_mem_nil, or_false] at hi
    obtain rfl | rfl := hi
    · exact lt_of_le_of_lt hsig (by norm_num)
    · exact lt_of_le_of_lt hpub (by norm_num)
  rw [← assemble_sigScript hsig hpub, runScript_assemble _ hencodable] at hstack
  cases r with
  | error e => cases hstack
  | ok m' =>
      have hm' : m'.stack = pubkey :: signature :: m.stack := Except.ok.inj hstack
      rw [hrun, hend m' rfl, hm']

/-- A payment to a key hash goes to whoever has the key: after the signature
script, a script that the hash was extracted from succeeds with a true element on
top exactly for a key with this hash and a signature that the checker accepts. -/
theorem payment_spent_iff {script signature pubkey : Bytes} {hash : Payload}
    (hscript : extractP2pkhAddress script = some hash) (hsig : signature.length ≤ 255)
    (hpub : pubkey.length ≤ 255) :
    ∃ m₁ r, (m.setScript (createP2pkhSigScript signature pubkey)).execute d
          (createP2pkhSigScript signature pubkey).length = some (.ok m₁) ∧
        (m₁.setScript script).execute d script.length = some r ∧
        onStack r = redeem (m.env d) hash signature pubkey m.stack ∧
        ((∃ m', r = .ok m' ∧ m'.stack.head? = some (truth true)) ↔
          d.hash160 pubkey = some hash.bytes ∧
            ∃ checker, m.sigChecker = some checker ∧
              checker m.currentSighash signature pubkey = true) := by
  obtain rfl := extractP2pkhAddress_eq_some.mp hscript
  obtain ⟨r, hrun, hstack, -⟩ := execute_setScript d { m with
    script := createP2pkhSigScript signature pubkey
    pc := (createP2pkhSigScript signature pubkey).length
    stack := pubkey :: signature :: m.stack } (createP2pkhScript hash) 0
  rw [← assemble_p2pkhInstructions,
    runScript_assemble _ (encodable_p2pkhInstructions hash), run_p2pkhInstructions] at hstack
  refine ⟨_, r, execute_sigScript d m hsig hpub 0, hrun, hstack, ?_⟩
  rw [ok_iff_onStack (P := fun stack => stack.head? = some (truth true)), hstack]
  exact redeem_true_iff

theorem length_ones : (List.replicate 20 (1 : UInt8)).length = 20 := rfl

theorem length_paddedNumber (data : Bytes) : (toPaddedBytes 20 (fromBytes data)).length = 20 :=
  length_toPaddedBytes 20 _

/-- Digests and a checker for a run. -/
def exampleDigests : Digests where
  sha1 _ := ⟨List.replicate 20 1, length_ones⟩
  sha256 data := Hash256.ofBytes data
  ripemd160 data := some ⟨toPaddedBytes 20 (fromBytes data), length_paddedNumber data⟩

/-- A machine with a checker. -/
def exampleMachine : ScriptMachine :=
  init.setSignatureChecker fun _ signature pubkey => signature.take 1 = pubkey.take 1

theorem payment_spent_iff_seven :
    ∃ m₁ r, (exampleMachine.setScript (createP2pkhSigScript [7, 6] [7])).execute exampleDigests
          (createP2pkhSigScript [7, 6] [7]).length = some (.ok m₁) ∧
        (m₁.setScript (createP2pkhScript ⟨toPaddedBytes 20 7, rfl⟩)).execute exampleDigests
          (createP2pkhScript ⟨toPaddedBytes 20 7, rfl⟩).length = some r ∧
        onStack r = redeem (exampleMachine.env exampleDigests) ⟨toPaddedBytes 20 7, rfl⟩ [7, 6] [7]
          [] ∧
        ((∃ m', r = .ok m' ∧ m'.stack.head? = some (truth true)) ↔
          exampleDigests.hash160 [7] = some (toPaddedBytes 20 7) ∧
            ∃ checker, exampleMachine.sigChecker = some checker ∧
              checker exampleMachine.currentSighash [7, 6] [7] = true) :=
  payment_spent_iff exampleDigests exampleMachine (extractP2pkhAddress_eq_some.mpr rfl)
    (by decide) (by decide)

end ScriptMachine

end Cryptex.Script
