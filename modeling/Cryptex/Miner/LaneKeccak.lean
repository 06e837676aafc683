import Cryptex.Lib.Keccak

/-!
# The miner's Keccak

`keccakf_scalar_state` and `keccakf4x_avx2` of `powminer_main.cpp` are one
algorithm on 25 lanes. The first holds a 64-bit word in a lane, the second a
256-bit register with the words of four candidates. Here the algorithm is
`keccakf` over the operations on a lane (`LaneOps`), and the two functions are
its instances.

What an operation does to a lane, it has to do to every bit that the lane
holds (`LaneOps.Implements`). Operations that do make `keccakf` compute
KECCAK-f (`bits_keccakf`), and this is shown once, for a word and for each of
the four words of a register.
-/

namespace Cryptex.Miner

def kKeccakRoundConstants : List UInt64 := [
  0x0000000000000001, 0x0000000000008082,
  0x800000000000808a, 0x8000000080008000,
  0x000000000000808b, 0x0000000080000001,
  0x8000000080008081, 0x8000000000008009,
  0x000000000000008a, 0x0000000000000088,
  0x0000000080008009, 0x000000008000000a,
  0x000000008000808b, 0x800000000000008b,
  0x8000000000008089, 0x8000000000008003,
  0x8000000000008002, 0x8000000000000080,
  0x000000000000800a, 0x800000008000000a,
  0x8000000080008081, 0x8000000000008080,
  0x0000000080000001, 0x8000000080008008]

def kKeccakRhoOffsets : Vector Nat 25 := #v[
  0,  1, 62, 28, 27,
  36, 44,  6, 55, 20,
  3, 10, 43, 25, 39,
  41, 45, 15, 21,  8,
  18,  2, 61, 56, 14]

/-! ## The permutation -/

/-- The index of a lane in the state. -/
def laneIndex (x y : Fin 5) : Fin 25 := ⟨x + 5 * y, by omega⟩

def column (i : Fin 25) : Fin 5 := ⟨i % 5, by omega⟩

def row (i : Fin 25) : Fin 5 := ⟨i / 5, by omega⟩

/-- `for (y) for (x)`. -/
def cells : List (Fin 5 × Fin 5) :=
  (List.finRange 5).flatMap fun y => (List.finRange 5).map fun x => (x, y)

/-- The operations on a lane that the permutation is written with. -/
structure LaneOps (ω : Type*) where
  /-- The exclusive or of the five lanes of a column. -/
  parity : ω → ω → ω → ω → ω → ω
  xor : ω → ω → ω
  rotl : ω → Nat → ω
  /-- `lane ^ (~lane1 & lane2)`. -/
  chi : ω → ω → ω → ω
  const : UInt64 → ω

section Permutation

variable {ω : Type*} (ops : LaneOps ω)

def columnParities (state : Vector ω 25) : Vector ω 5 := Vector.ofFn fun x =>
  ops.parity state[laneIndex x 0] state[laneIndex x 1] state[laneIndex x 2]
    state[laneIndex x 3] state[laneIndex x 4]

def columnEffects (parities : Vector ω 5) : Vector ω 5 := Vector.ofFn fun x =>
  ops.xor parities[x + 4] (ops.rotl parities[x + 1] 1)

def mixColumns (state : Vector ω 25) : Vector ω 25 :=
  let d := columnEffects ops (columnParities ops state)
  Vector.ofFn fun i => ops.xor state[i] d[column i]

/-- The scratch array after the lanes have been turned and written to their
new places. What it held before does not matter: every place is written. -/
def moveLanes (b state : Vector ω 25) : Vector ω 25 :=
  cells.foldl (fun b cell =>
    let index := laneIndex cell.1 cell.2
    b.set (laneIndex cell.2 (2 * cell.1 + 3 * cell.2))
      (ops.rotl state[index] kKeccakRhoOffsets[index])) b

def mixRows (b : Vector ω 25) : Vector ω 25 := Vector.ofFn fun i =>
  ops.chi b[laneIndex (column i) (row i)] b[laneIndex (column i + 1) (row i)]
    b[laneIndex (column i + 2) (row i)]

def keccakRound (state : Vector ω 25) (constant : UInt64) : Vector ω 25 :=
  let state := mixColumns ops state
  let b := moveLanes ops state state
  let state := mixRows ops b
  state.set 0 (ops.xor state[0] (ops.const constant))

def keccakf (state : Vector ω 25) : Vector ω 25 :=
  kKeccakRoundConstants.foldl (keccakRound ops) state

/-- The last bytes of the header and the padding, added to the prefix state. -/
def addSuffix (prefixState : Vector ω 25) (word : ω) : Vector ω 25 :=
  let state := prefixState.set 0 (ops.xor prefixState[0] word)
  let state := state.set 1 (ops.xor state[1] (ops.const 0x06))
  state.set 8 (ops.xor state[8] (ops.const ((1 : UInt64) <<< 63)))

end Permutation

/-! ## One word in a lane -/

def rotl64 (value : UInt64) (shift : Nat) : UInt64 :=
  if shift = 0 then value
  else (value <<< UInt64.ofNat shift) ||| (value >>> UInt64.ofNat (64 - shift))

def scalarOps : LaneOps UInt64 where
  parity a b c d e := a ^^^ b ^^^ c ^^^ d ^^^ e
  xor a b := a ^^^ b
  rotl := rotl64
  chi lane lane1 lane2 := lane ^^^ (~~~lane1 &&& lane2)
  const c := c

def keccakfScalarState : Vector UInt64 25 → Vector UInt64 25 := keccakf scalarOps

/-! ## Four words in a lane -/

/-- A 256-bit register as four 64-bit words. -/
abbrev M256i := Vector UInt64 4

def rotl64Avx2Cases : List (Nat × Nat) := [
  (1, 63), (2, 62), (3, 61), (6, 58), (8, 56), (10, 54), (14, 50), (15, 49),
  (18, 46), (20, 44), (21, 43), (25, 39), (27, 37), (28, 36), (36, 28), (39, 25),
  (41, 23), (43, 21), (44, 20), (45, 19), (55, 9), (56, 8), (61, 3), (62, 2)]

/-- The `switch` over the shift: each case shifts left by one immediate and
right by the other; case 0 and every shift without a case give the value back. -/
def rotl64Avx2 (value : M256i) (shift : Nat) : M256i :=
  match rotl64Avx2Cases.lookup shift with
  | none => value
  | some right => value.map fun word =>
      (word <<< UInt64.ofNat shift) ||| (word >>> UInt64.ofNat right)

def xor256 (a b : M256i) : M256i := Vector.zipWith (· ^^^ ·) a b

/-- `_mm256_andnot_si256`: the first operand is the one complemented. -/
def andnot256 (a b : M256i) : M256i := Vector.zipWith (fun a b => ~~~a &&& b) a b

def avx2Ops : LaneOps M256i where
  parity a b c d e := xor256 (xor256 a b) (xor256 (xor256 c d) e)
  xor := xor256
  rotl := rotl64Avx2
  chi lane lane1 lane2 := xor256 lane (andnot256 lane1 lane2)
  const c := Vector.replicate 4 c

def keccakf4xAvx2 : Vector M256i 25 → Vector M256i 25 := keccakf avx2Ops

/-! ## KECCAK-f on the bits of a lane -/

/-- The operations do to each bit of a lane what the step mappings do. Lanes
are only turned by the offsets of the table. -/
structure LaneOps.Implements {ω : Type*} (ops : LaneOps ω) (bit : ω → Fin 64 → Bool) : Prop where
  parity : ∀ a b c d e z,
    bit (ops.parity a b c d e) z = (bit a z ^^ bit b z ^^ bit c z ^^ bit d z ^^ bit e z)
  xor : ∀ a b z, bit (ops.xor a b) z = (bit a z ^^ bit b z)
  rotl : ∀ value, ∀ shift ∈ kKeccakRhoOffsets, ∀ z,
    bit (ops.rotl value shift) z = bit value (z - Fin.ofNat 64 shift)
  chi : ∀ lane lane1 lane2 z,
    bit (ops.chi lane lane1 lane2) z = (bit lane z ^^ ((bit lane1 z ^^ true) && bit lane2 z))
  const : ∀ c z, bit (ops.const c) z = c.toBitVec.getLsbD z

/-- What is written to places of its own is what a pass of writes leaves there. -/
theorem getElem_foldl_set {ω κ : Type*} {n : Nat} {pos : κ → Fin n} (hpos : pos.Injective)
    (val : κ → ω) {keys : List κ} {k : κ} (hk : k ∈ keys) (b : Vector ω n) :
    (keys.foldl (fun b k => b.set (pos k) (val k)) b)[pos k] = val k := by
  induction keys using List.reverseRecOn with
  | nil => cases hk
  | append_singleton keys last ih =>
      rw [List.foldl_append, List.foldl_cons, List.foldl_nil]
      by_cases hlast : k = last
      · subst hlast
        exact Vector.getElem_set_self _
      · have hne : (pos last : Nat) ≠ pos k := fun h => hlast (hpos (Fin.ext h.symm))
        have hmem : k ∈ keys := by
          rcases List.mem_append.mp hk with hmem | hmem
          · exact hmem
          · exact absurd (List.mem_singleton.mp hmem) hlast
        exact (Vector.getElem_set_ne _ _ hne).trans (ih hmem)

theorem mem_cells (cell : Fin 5 × Fin 5) : cell ∈ cells := by
  rw [cells, List.mem_flatMap]
  exact ⟨cell.2, List.mem_finRange _, List.mem_map.mpr ⟨cell.1, List.mem_finRange _, rfl⟩⟩

@[simp] theorem column_laneIndex (x y : Fin 5) : column (laneIndex x y) = x := by
  apply Fin.ext
  show (x + 5 * y : Nat) % 5 = x
  omega

@[simp] theorem row_laneIndex (x y : Fin 5) : row (laneIndex x y) = y := by
  apply Fin.ext
  show (x + 5 * y : Nat) / 5 = y
  omega

theorem laneIndex_inj {x y x' y' : Fin 5} (h : laneIndex x y = laneIndex x' y') :
    x = x' ∧ y = y' :=
  ⟨by rw [← column_laneIndex x y, h, column_laneIndex],
    by rw [← row_laneIndex x y, h, row_laneIndex]⟩

/-- The table of offsets is the walk of ρ. -/
theorem kKeccakRhoOffsets_eq (x y : Fin 5) :
    kKeccakRhoOffsets[laneIndex x y] = Keccak.offset x y % 64 := by
  revert x y
  decide

theorem kKeccakRhoOffsets_mem (x y : Fin 5) :
    kKeccakRhoOffsets[laneIndex x y] ∈ kKeccakRhoOffsets :=
  Vector.getElem_mem _

/-- The table of round constants is the output of the shift register. -/
theorem kKeccakRoundConstants_eq : kKeccakRoundConstants = (List.range 24).map fun ir =>
    ⟨(BitVec.ofBoolListLE ((List.range 64).map (Keccak.roundConstant 64 ir))).setWidth 64⟩ := by
  decide +kernel

section Refinement

variable {ω : Type*} {ops : LaneOps ω} {bit : ω → Fin 64 → Bool}

/-- The state array that the lanes hold. -/
def bits (bit : ω → Fin 64 → Bool) (state : Vector ω 25) : Keccak.StateArray 64 :=
  fun x y z => bit state[laneIndex x y] z

/-- In the array the lanes are counted as in the state's string. -/
theorem bits_at (state : Vector ω 25) (x y : Fin 5) (z : Fin 64) {lane : Nat}
    (hlt : lane < 25) (hlane : 5 * y.val + x.val = lane) :
    bits bit state x y z = bit state[lane] z := by
  subst hlane
  simp only [bits, Fin.getElem_fin, laneIndex, Nat.add_comm]

theorem bits_mixColumns (hops : ops.Implements bit) (state : Vector ω 25) :
    bits bit (mixColumns ops state) = Keccak.theta (bits bit state) := by
  have hparity (x : Fin 5) (z : Fin 64) : bit (columnParities ops state)[x] z
      = Keccak.columnParity (bits bit state) x z := by
    simp only [columnParities, Fin.getElem_fin, Vector.getElem_ofFn]
    exact hops.parity ..
  have hleft (x : Fin 5) : x + 4 = x - 1 := by revert x; decide
  have hone : 1 ∈ kKeccakRhoOffsets := kKeccakRhoOffsets_mem 1 0
  funext x y z
  have hmixed : (mixColumns ops state)[laneIndex x y] = ops.xor state[laneIndex x y]
      (ops.xor (columnParities ops state)[x + 4]
        (ops.rotl (columnParities ops state)[x + 1] 1)) := by
    simp only [mixColumns, columnEffects, Fin.getElem_fin, Vector.getElem_ofFn, Fin.eta,
      column_laneIndex]
  rw [bits, hmixed, hops.xor, hops.xor, hops.rotl _ 1 hone, hparity, hparity, hleft]
  rfl

theorem bits_moveLanes (hops : ops.Implements bit) (b state : Vector ω 25) :
    bits bit (moveLanes ops b state) = Keccak.pi (Keccak.rho (bits bit state)) := by
  have hpos : Function.Injective fun cell : Fin 5 × Fin 5 =>
      laneIndex cell.2 (2 * cell.1 + 3 * cell.2) := by
    rintro ⟨x, y⟩ ⟨x', y'⟩ h
    obtain ⟨rfl, hsum⟩ := laneIndex_inj h
    have hx : x = x' := by
      revert x x' y
      decide
    rw [hx]
  funext x y z
  -- the lane that is written to (x, y) comes from (x + 3 y, x)
  have hsource : laneIndex x (2 * (x + 3 * y) + 3 * x) = laneIndex x y := by
    revert x y
    decide
  have hmoved := getElem_foldl_set hpos
    (fun cell => ops.rotl state[laneIndex cell.1 cell.2] kKeccakRhoOffsets[laneIndex cell.1 cell.2])
    (mem_cells (x + 3 * y, x)) b
  simp only [hsource] at hmoved
  have hturn : Fin.ofNat 64 (Keccak.offset (x + 3 * y) x % 64)
      = Fin.ofNat 64 (Keccak.offset (x + 3 * y) x) := Fin.ext (Nat.mod_mod _ _)
  rw [bits, moveLanes, hmoved, hops.rotl _ _ (kKeccakRhoOffsets_mem _ _), kKeccakRhoOffsets_eq,
    hturn]
  rfl

theorem bits_mixRows (hops : ops.Implements bit) (b : Vector ω 25) :
    bits bit (mixRows ops b) = Keccak.chi (bits bit b) := by
  funext x y z
  have hmixed : (mixRows ops b)[laneIndex x y] = ops.chi b[laneIndex x y]
      b[laneIndex (x + 1) y] b[laneIndex (x + 2) y] := by
    simp only [mixRows, Fin.getElem_fin, Vector.getElem_ofFn, Fin.eta, column_laneIndex,
      row_laneIndex]
  rw [bits, hmixed, hops.chi]
  rfl

/-- The bits of a lane of the state after a change to its first lane. -/
theorem bits_set_zero (state : Vector ω 25) (value : ω) :
    bits bit (state.set 0 value) = fun x y z =>
      if x = 0 ∧ y = 0 then bit value z else bits bit state x y z := by
  funext x y z
  rw [bits]
  split
  next hzero =>
    obtain ⟨rfl, rfl⟩ := hzero
    exact congrArg (bit · z) (Vector.getElem_set_self _)
  next hzero =>
    have hne : (0 : Nat) ≠ laneIndex x y := by
      intro h
      have hindex : laneIndex x y = laneIndex 0 0 := Fin.ext h.symm
      exact hzero (laneIndex_inj hindex)
    rw [Fin.getElem_fin, Vector.getElem_set_ne _ _ hne]
    rfl

theorem bits_keccakRound (hops : ops.Implements bit) (state : Vector ω 25) {constant : UInt64}
    {ir : Nat} (hconstant : ∀ z : Fin 64,
      constant.toBitVec.getLsbD z = Keccak.roundConstant 64 ir z) :
    bits bit (keccakRound ops state constant) = Keccak.round (bits bit state) ir := by
  have hrows := bits_mixRows hops (moveLanes ops (mixColumns ops state) (mixColumns ops state))
  rw [bits_moveLanes hops, bits_mixColumns hops] at hrows
  rw [keccakRound, bits_set_zero, Keccak.round, ← hrows]
  funext x y z
  rw [Keccak.iota]
  split
  next hzero =>
    obtain ⟨rfl, rfl⟩ := hzero
    rw [hops.xor, hops.const, hconstant]
    rfl
  · rfl

/-- The miner's permutation is KECCAK-f on the bits that the lanes hold. -/
theorem bits_keccakf (hops : ops.Implements bit) (state : Vector ω 25) :
    bits bit (keccakf ops state) = Keccak.keccakF (bits bit state) := by
  have hrounds : 12 + 2 * Nat.log2 64 = 24 := by decide
  have hrun (irs : List Nat) : ∀ state : Vector ω 25,
      bits bit (irs.foldl (fun state ir => keccakRound ops state
        ⟨(BitVec.ofBoolListLE ((List.range 64).map (Keccak.roundConstant 64 ir))).setWidth 64⟩)
        state) = irs.foldl Keccak.round (bits bit state) := by
    induction irs with
    | nil => exact fun _ => rfl
    | cons ir irs ih =>
        intro state
        rw [List.foldl_cons, List.foldl_cons, ih]
        congr 1
        apply bits_keccakRound hops
        intro z
        rw [BitVec.getLsbD_setWidth, decide_eq_true z.isLt, Bool.true_and,
          BitVec.getLsbD_ofBoolListLE, List.getD_eq_getElem?_getD, List.getElem?_map,
          List.getElem?_range z.isLt]
        rfl
  rw [keccakf, kKeccakRoundConstants_eq, List.foldl_map, hrun, Keccak.keccakF, hrounds]

end Refinement

/-! ### A word, and each word of a register -/

/-- The bits of a word. -/
def wordBit (word : UInt64) (z : Fin 64) : Bool := word.toBitVec.getLsbD z

/-- The bits of one of the four words of a register. -/
def registerBit (i : Fin 4) (register : M256i) (z : Fin 64) : Bool := wordBit register[i] z

theorem turn_zero (z : Fin 64) : z - Fin.ofNat 64 0 = z := by
  revert z
  decide

/-- Two shifts that make up the width of a word turn it. -/
theorem wordBit_rotate (word : UInt64) {shift : Nat} (hpos : 0 < shift) (hlt : shift < 64)
    (z : Fin 64) :
    wordBit ((word <<< UInt64.ofNat shift) ||| (word >>> UInt64.ofNat (64 - shift))) z
      = wordBit word (z - Fin.ofNat 64 shift) := by
  have hz := z.isLt
  have hleft : (UInt64.ofNat shift).toBitVec.toNat % BitVec.toNat (64 : BitVec 64) = shift := by
    rw [UInt64.toNat_toBitVec, UInt64.toNat_ofNat']
    show shift % 2 ^ 64 % 64 = shift
    omega
  have hright : (UInt64.ofNat (64 - shift)).toBitVec.toNat % BitVec.toNat (64 : BitVec 64)
      = 64 - shift := by
    rw [UInt64.toNat_toBitVec, UInt64.toNat_ofNat']
    show (64 - shift) % 2 ^ 64 % 64 = 64 - shift
    omega
  have hback : ((z - Fin.ofNat 64 shift : Fin 64) : Nat) = (64 - shift + z) % 64 := by
    rw [Fin.sub_def, Fin.ofNat]
    simp only [Nat.mod_eq_of_lt hlt]
  rw [wordBit, UInt64.toBitVec_or, UInt64.toBitVec_shiftLeft, UInt64.toBitVec_shiftRight,
    BitVec.getLsbD_or, BitVec.shiftLeft_eq', BitVec.ushiftRight_eq', BitVec.getLsbD_shiftLeft,
    BitVec.getLsbD_ushiftRight, BitVec.toNat_umod, BitVec.toNat_umod, hleft, hright, wordBit,
    hback, decide_eq_true hz, Bool.true_and]
  by_cases hwrap : (z : Nat) < shift
  · -- the bit comes in from the top of the word
    rw [decide_eq_true hwrap, Bool.not_true, Bool.false_and, Bool.false_or,
      Nat.mod_eq_of_lt (by omega)]
  · rw [decide_eq_false hwrap, Bool.not_false, Bool.true_and,
      BitVec.getLsbD_of_ge _ (64 - shift + z) (by omega), Bool.or_false,
      show (64 - shift + z : Nat) % 64 = z - shift by omega]

theorem scalarOps_implements : scalarOps.Implements wordBit where
  parity a b c d e z := by
    simp only [scalarOps, wordBit, UInt64.toBitVec_xor, BitVec.getLsbD_xor]
  xor a b z := by
    simp only [scalarOps, wordBit, UInt64.toBitVec_xor, BitVec.getLsbD_xor]
  rotl value shift hshift z := by
    have hlt : ∀ shift ∈ kKeccakRhoOffsets.toList, shift < 64 := by decide
    simp only [scalarOps, rotl64]
    split
    next hzero =>
      subst hzero
      exact congrArg _ (turn_zero z).symm
    next hne =>
      exact wordBit_rotate value (by omega) (hlt shift (Vector.mem_toList_iff.mpr hshift)) z
  chi lane lane1 lane2 z := by
    simp only [scalarOps, wordBit, UInt64.toBitVec_xor, UInt64.toBitVec_and, UInt64.toBitVec_not,
      BitVec.getLsbD_xor, BitVec.getLsbD_and, BitVec.getLsbD_not, decide_eq_true z.isLt,
      Bool.true_and, Bool.xor_true]
  const c z := rfl

/-- On each of the four words a register operation is the word's own. -/
theorem avx2Ops_implements (i : Fin 4) : avx2Ops.Implements (registerBit i) where
  parity a b c d e z := by
    simp only [avx2Ops, xor256, registerBit, wordBit, Fin.getElem_fin, Vector.getElem_zipWith,
      UInt64.toBitVec_xor, BitVec.getLsbD_xor, Bool.xor_assoc]
  xor a b z := by
    simp only [avx2Ops, xor256, registerBit, wordBit, Fin.getElem_fin, Vector.getElem_zipWith,
      UInt64.toBitVec_xor, BitVec.getLsbD_xor]
  rotl value shift hshift z := by
    -- every turn of the table but the first has a case of its own
    have hcases : ∀ shift ∈ kKeccakRhoOffsets.toList, shift ≠ 0 →
        shift < 64 ∧ rotl64Avx2Cases.lookup shift = some (64 - shift) := by decide
    by_cases hzero : shift = 0
    · subst hzero
      exact congrArg _ (turn_zero z).symm
    · obtain ⟨hlt, hcase⟩ := hcases shift (Vector.mem_toList_iff.mpr hshift) hzero
      simp only [avx2Ops, rotl64Avx2, hcase, registerBit, Fin.getElem_fin, Vector.getElem_map]
      exact wordBit_rotate _ (by omega) hlt z
  chi lane lane1 lane2 z := by
    simp only [avx2Ops, xor256, andnot256, registerBit, wordBit, Fin.getElem_fin,
      Vector.getElem_zipWith, UInt64.toBitVec_xor, UInt64.toBitVec_and, UInt64.toBitVec_not,
      BitVec.getLsbD_xor, BitVec.getLsbD_and, BitVec.getLsbD_not, decide_eq_true z.isLt,
      Bool.true_and, Bool.xor_true]
  const c z := by
    simp only [avx2Ops, registerBit, Fin.getElem_fin, Vector.getElem_replicate, wordBit]

end Cryptex.Miner
