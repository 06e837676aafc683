import Mathlib.Data.List.Range
import Mathlib.Tactic.Ring

/-!
# Keccak and SHA3-512

The permutation KECCAK-f and the sponge construction of FIPS 202 as the
standard writes them, bit by bit, for any lane size. A state array has a bit
for each `(x, y, z)`; a string of bits holds the same state with lane
`(x, y)` at place `5 y + x`. `sha3_512` is the hash function on bytes, whose
bits are taken from the least significant one on.

Two facts are for those who compute the function otherwise: absorbing can
stop after any whole number of blocks and go on from the state reached
(`absorbed_append`), and a state array can stand for its string throughout
(`absorb_stringOf`).
-/

namespace Keccak

/-! ## The step mappings -/

instance neZeroFive : NeZero 5 := ⟨by decide⟩

/-- A bit for each column `x`, row `y` and place `z` in a lane. -/
abbrev StateArray (w : Nat) := Fin 5 → Fin 5 → Fin w → Bool

section Steps

variable {w : Nat} [NeZero w]

def columnParity (A : StateArray w) (x : Fin 5) (z : Fin w) : Bool :=
  A x 0 z ^^ A x 1 z ^^ A x 2 z ^^ A x 3 z ^^ A x 4 z

def theta (A : StateArray w) : StateArray w := fun x y z =>
  A x y z ^^ (columnParity A (x - 1) z ^^ columnParity A (x + 1) (z - 1))

/-- The lane that the walk of ρ visits at step `t`. -/
def walk : Nat → Fin 5 × Fin 5
  | 0 => (1, 0)
  | t + 1 => ((walk t).2, 2 * (walk t).1 + 3 * (walk t).2)

/-- How far ρ turns a lane: not at all at the origin, which the walk never visits. -/
def offset (x y : Fin 5) : Nat :=
  match (List.range 24).find? fun t => walk t = (x, y) with
  | none => 0
  | some t => (t + 1) * (t + 2) / 2

def rho (A : StateArray w) : StateArray w := fun x y z => A x y (z - Fin.ofNat w (offset x y))

def pi (A : StateArray w) : StateArray w := fun x y z => A (x + 3 * y) x z

def chi (A : StateArray w) : StateArray w := fun x y z =>
  A x y z ^^ ((A (x + 1) y z ^^ true) && A (x + 2) y z)

/-- One step of the shift register behind the round constants. -/
def shift (R : List Bool) : List Bool :=
  let R := false :: R
  let feedback := fun (R : List Bool) i => R.set i (R.getD i false ^^ R.getD 8 false)
  ([0, 4, 5, 6].foldl feedback R).take 8

def rc (t : Nat) : Bool :=
  (shift^[t % 255] [true, false, false, false, false, false, false, false]).getD 0 false

def roundConstant (w ir : Nat) (z : Nat) : Bool :=
  (List.range (Nat.log2 w + 1)).any fun j => z = 2 ^ j - 1 && rc (j + 7 * ir)

def iota (ir : Nat) (A : StateArray w) : StateArray w := fun x y z =>
  if x = 0 ∧ y = 0 then A x y z ^^ roundConstant w ir z else A x y z

def round (A : StateArray w) (ir : Nat) : StateArray w := iota ir (chi (pi (rho (theta A))))

/-- KECCAK-f: the permutation with its full number of rounds. -/
def keccakF (A : StateArray w) : StateArray w :=
  (List.range (12 + 2 * Nat.log2 w)).foldl round A

end Steps

/-! ## Strings -/

/-- Bit by bit exclusive or of two arrays. -/
def StateArray.xor {w : Nat} (A B : StateArray w) : StateArray w := fun x y z => A x y z ^^ B x y z

def StateArray.zero {w : Nat} : StateArray w := fun _ _ _ => false

section Strings

variable {w : Nat}

/-- The array of a string; bits that the string does not have are clear. -/
def arrayOf (w : Nat) (S : List Bool) : StateArray w := fun x y z =>
  S.getD (w * (5 * y + x) + z) false

/-- The place of a bit in the string of an array. -/
theorem place_lt (x y : Fin 5) (z : Fin w) : w * (5 * y + x) + z < 25 * w := by
  have hlane : w * (5 * y + x + 1) ≤ w * 25 := by
    apply Nat.mul_le_mul_left
    have := x.isLt
    have := y.isLt
    omega
  have hz := z.isLt
  rw [Nat.mul_add w _ 1, Nat.mul_one] at hlane
  omega

/-- Adding a padded block to a string adds the block's array. -/
theorem arrayOf_zipWith {S P : List Bool} {c : Nat} (hS : S.length = 25 * w)
    (hP : P.length + c = 25 * w) :
    arrayOf w (List.zipWith Bool.xor S (P ++ List.replicate c false))
      = (arrayOf w S).xor (arrayOf w P) := by
  funext x y z
  have hi := place_lt x y z
  rw [StateArray.xor, arrayOf, arrayOf, arrayOf]
  generalize w * (5 * y + x) + z = i at hi
  have hpad : (P ++ List.replicate c false).getD i false = P.getD i false := by
    rw [List.getD_eq_getElem?_getD, List.getD_eq_getElem?_getD, List.getElem?_append]
    split
    · rfl
    next hle =>
      rw [List.getElem?_replicate, List.getElem?_eq_none (Nat.not_lt.mp hle)]
      split <;> rfl
  have hlen : i < (P ++ List.replicate c false).length := by
    rw [List.length_append, List.length_replicate, hP]
    exact hi
  rw [← hpad, List.getD_eq_getElem?_getD, List.getElem?_zipWith, List.getD_eq_getElem?_getD,
    List.getD_eq_getElem?_getD, List.getElem?_eq_getElem (hS ▸ hi), List.getElem?_eq_getElem hlen]
  rfl

variable [NeZero w]

def stringOf (A : StateArray w) : List Bool := (List.range (25 * w)).map fun i =>
  A (Fin.ofNat 5 (i / w)) (Fin.ofNat 5 (i / w / 5)) (Fin.ofNat w i)

@[simp] theorem length_stringOf (A : StateArray w) : (stringOf A).length = 25 * w := by
  rw [stringOf, List.length_map, List.length_range]

theorem getD_stringOf (A : StateArray w) (x y : Fin 5) (z : Fin w) :
    (stringOf A).getD (w * (5 * y + x) + z) false = A x y z := by
  have hw : 0 < w := Nat.pos_of_neZero w
  have hlane : (w * (5 * y + x) + z) / w = 5 * y + x := by
    rw [Nat.mul_add_div hw, Nat.div_eq_of_lt z.isLt, Nat.add_zero]
  have hx : Fin.ofNat 5 (5 * y + x) = x := by
    apply Fin.ext
    show (5 * y + x : Nat) % 5 = x
    rw [Nat.mul_add_mod, Nat.mod_eq_of_lt x.isLt]
  have hy : Fin.ofNat 5 ((5 * y + x : Nat) / 5) = y := by
    have hdiv : (5 * y + x : Nat) / 5 = y := by have := x.isLt; omega
    rw [hdiv]
    exact Fin.ext (Nat.mod_eq_of_lt y.isLt)
  have hz : Fin.ofNat w (w * (5 * y + x) + z) = z := by
    apply Fin.ext
    show (w * (5 * y + x) + z : Nat) % w = z
    rw [Nat.mul_add_mod, Nat.mod_eq_of_lt z.isLt]
  rw [List.getD_eq_getElem?_getD, stringOf, List.getElem?_map,
    List.getElem?_range (place_lt x y z), Option.map_some, Option.getD_some, hlane, hx, hy, hz]

@[simp] theorem arrayOf_stringOf (A : StateArray w) : arrayOf w (stringOf A) = A := by
  funext x y z
  exact getD_stringOf A x y z

end Strings

/-! ## The sponge -/

/-- pad10*1 for a message of `m` bits and blocks of `x`. -/
def pad (x m : Nat) : List Bool :=
  true :: List.replicate ((x - (m + 2) % x) % x) false ++ [true]

theorem length_pad (x m : Nat) : (pad x m).length = (x - (m + 2) % x) % x + 2 := by
  rw [pad, List.length_append, List.length_cons, List.length_replicate, List.length_singleton]

/-- The whole blocks of `r` bits of a string. -/
def blocks (r : Nat) (P : List Bool) : List (List Bool) :=
  (List.range (P.length / r)).map fun i => (P.drop (r * i)).take r

section Sponge

variable (f : List Bool → List Bool)

/-- One block and `c` clear bits are added to the state, which is then permuted. -/
def absorb (c : Nat) (S : List Bool) (P : List Bool) : List Bool :=
  f (List.zipWith Bool.xor S (P ++ List.replicate c false))

/-- `n` outputs of `r` bits, with the permutation between them. -/
def squeeze (r : Nat) : Nat → List Bool → List Bool
  | 0, _ => []
  | n + 1, S => S.take r ++ squeeze r n (f S)

/-- `SPONGE[f, pad10*1, r]` on states of `b` bits, with `d` bits of output. -/
def sponge (b r : Nat) (message : List Bool) (d : Nat) : List Bool :=
  let padded := message ++ pad r message.length
  let S := (blocks r padded).foldl (absorb f (b - r)) (List.replicate b false)
  (squeeze f r ((d + r - 1) / r) S).take d

end Sponge

theorem length_of_mem_blocks {r : Nat} {P B : List Bool} (hB : B ∈ blocks r P) :
    B.length = r := by
  obtain ⟨i, hi, rfl⟩ := List.mem_map.mp hB
  have hi := List.mem_range.mp hi
  have hle : r * i + r ≤ P.length := by
    calc r * i + r = r * (i + 1) := (Nat.mul_succ r i).symm
      _ ≤ r * (P.length / r) := Nat.mul_le_mul_left r hi
      _ ≤ P.length := Nat.mul_div_le _ _
  rw [List.length_take, List.length_drop]
  omega

theorem blocks_append {r : Nat} (hr : 0 < r) {P : List Bool} (hP : r ∣ P.length)
    (Q : List Bool) : blocks r (P ++ Q) = blocks r P ++ blocks r Q := by
  obtain ⟨n, hn⟩ := hP
  have hcount : (P ++ Q).length / r = P.length / r + Q.length / r := by
    rw [List.length_append, hn, Nat.mul_add_div hr, Nat.mul_div_cancel_left n hr]
  rw [blocks, blocks, blocks, hcount, List.range_add, List.map_append, List.map_map, hn,
    Nat.mul_div_cancel_left n hr]
  congr 1
  · apply List.map_congr_left
    intro i hi
    have hle : r * (i + 1) ≤ P.length := by
      rw [hn]
      exact Nat.mul_le_mul_left r (List.mem_range.mp hi)
    rw [Nat.mul_succ] at hle
    rw [List.drop_append_of_le_length (by omega), List.take_append_of_le_length]
    rw [List.length_drop]
    omega
  · apply List.map_congr_left
    intro i _
    rw [Function.comp_apply, Nat.mul_add, ← hn, List.drop_length_add_append]

theorem blocks_single {r : Nat} (hr : 0 < r) {P : List Bool} (hP : P.length = r) :
    blocks r P = [P] := by
  subst hP
  rw [blocks, Nat.div_self hr]
  simp

/-! ### Absorbing into an array -/

section Absorbed

variable {w : Nat} (F : StateArray w → StateArray w)

/-- The array reached from `A` when the whole blocks of `P` have been absorbed. -/
def absorbed (r : Nat) (A : StateArray w) (P : List Bool) : StateArray w :=
  (blocks r P).foldl (fun A B => F (A.xor (arrayOf w B))) A

variable {F} {r : Nat}

/-- Absorbing may stop after any number of whole blocks and go on later. -/
theorem absorbed_append (hr : 0 < r) {P : List Bool} (hP : r ∣ P.length) (A : StateArray w)
    (Q : List Bool) : absorbed F r A (P ++ Q) = absorbed F r (absorbed F r A P) Q := by
  rw [absorbed, absorbed, absorbed, blocks_append hr hP, List.foldl_append]

theorem absorbed_single (hr : 0 < r) {P : List Bool} (hP : P.length = r) (A : StateArray w) :
    absorbed F r A P = F (A.xor (arrayOf w P)) := by
  rw [absorbed, blocks_single hr hP]
  rfl

variable [NeZero w] (F)

/-- A permutation of arrays on their strings. -/
def permute (S : List Bool) : List Bool := stringOf (F (arrayOf w S))

variable {F}

/-- The array stands for its string at every block. -/
theorem absorb_stringOf (hr : r ≤ 25 * w) {Ps : List (List Bool)}
    (hPs : ∀ P ∈ Ps, P.length = r) (A : StateArray w) :
    Ps.foldl (absorb (permute F) (25 * w - r)) (stringOf A)
      = stringOf (Ps.foldl (fun A B => F (A.xor (arrayOf w B))) A) := by
  induction Ps generalizing A with
  | nil => rfl
  | cons P Ps ih =>
      have hP := hPs P List.mem_cons_self
      have hstep : absorb (permute F) (25 * w - r) (stringOf A) P
          = stringOf (F (A.xor (arrayOf w P))) := by
        rw [absorb, permute, arrayOf_zipWith (length_stringOf A) (by omega), arrayOf_stringOf]
      rw [List.foldl_cons, List.foldl_cons, hstep]
      exact ih (fun P hP => hPs P (List.mem_cons_of_mem _ hP)) _

theorem stringOf_zero :
    stringOf (StateArray.zero : StateArray w) = List.replicate (25 * w) false := by
  rw [stringOf, ← List.length_range (n := 25 * w), ← List.map_const', List.length_range]
  rfl

/-- An output that one block holds is the start of the state after the last block. -/
theorem sponge_permute (hr : r ≤ 25 * w) {d : Nat} (hd : 0 < d) (hdr : d ≤ r)
    (message : List Bool) :
    sponge (permute F) (25 * w) r message d
      = (stringOf (absorbed F r .zero (message ++ pad r message.length))).take d := by
  have hcount : (d + r - 1) / r = 1 := by
    rw [Nat.div_eq_iff (by omega)]
    omega
  rw [sponge, ← stringOf_zero, absorb_stringOf hr (fun P hP => length_of_mem_blocks hP), hcount,
    squeeze, squeeze, List.append_nil, List.take_take, Nat.min_eq_left hdr, absorbed]

end Absorbed

/-! ## SHA3-512 -/

/-- The bits of a byte string, from the least significant bit of each byte on. -/
def bitsOf (data : List UInt8) : List Bool :=
  data.flatMap fun byte => (List.range 8).map byte.toBitVec.getLsbD

def byteAt (S : List Bool) (i : Nat) : UInt8 :=
  let bits := (List.range 8).map fun j => S.getD (8 * i + j) false
  UInt8.ofBitVec ((BitVec.ofBoolListLE bits).setWidth 8)

def bytesOf (S : List Bool) : List UInt8 := (List.range (S.length / 8)).map (byteAt S)

/-- `KECCAK[1024]` with the two bits that set SHA3-512 apart. -/
def sha3_512 (data : List UInt8) : List UInt8 :=
  bytesOf (sponge (permute (w := 64) keccakF) (25 * 64) 576 (bitsOf data ++ [false, true]) 512)

theorem bitsOf_append (a b : List UInt8) : bitsOf (a ++ b) = bitsOf a ++ bitsOf b :=
  List.flatMap_append

@[simp] theorem length_bitsOf (data : List UInt8) : (bitsOf data).length = 8 * data.length := by
  induction data with
  | nil => rfl
  | cons byte data ih =>
      rw [bitsOf, List.flatMap_cons, List.length_append, ← bitsOf, ih, List.length_map,
        List.length_range, List.length_cons]
      omega

/-- The bits of a byte string, found by byte and place. -/
theorem getD_bitsOf (data : List UInt8) (i : Nat) {j : Nat} (hj : j < 8) :
    (bitsOf data).getD (8 * i + j) false = (data.getD i 0).toBitVec.getLsbD j := by
  induction data generalizing i with
  | nil => simp [bitsOf]
  | cons byte data ih =>
      have hlen : ((List.range 8).map byte.toBitVec.getLsbD).length = 8 := by
        rw [List.length_map, List.length_range]
      rw [bitsOf, List.flatMap_cons, ← bitsOf]
      cases i with
      | zero =>
          rw [List.getD_eq_getElem?_getD, List.getElem?_append_left (by omega),
            List.getElem?_map, List.getElem?_range (by omega), Nat.mul_zero, Nat.zero_add]
          rfl
      | succ i =>
          rw [List.getD_eq_getElem?_getD, List.getElem?_append_right (by omega), hlen,
            show 8 * (i + 1) + j - 8 = 8 * i + j by omega, ← List.getD_eq_getElem?_getD, ih,
            List.getD_cons_succ]

theorem getLsbD_byteAt (S : List Bool) (i : Nat) {j : Nat} (hj : j < 8) :
    (byteAt S i).toBitVec.getLsbD j = S.getD (8 * i + j) false := by
  rw [byteAt, BitVec.getLsbD_setWidth, decide_eq_true hj, Bool.true_and,
    BitVec.getLsbD_ofBoolListLE, List.getD_eq_getElem?_getD, List.getElem?_map,
    List.getElem?_range hj]
  rfl

theorem length_sha3_512 (data : List UInt8) : (sha3_512 data).length = 64 := by
  rw [sha3_512, sponge_permute (by omega) (by omega) (by omega), bytesOf, List.length_map,
    List.length_range, List.length_take, length_stringOf]
  rfl

end Keccak
