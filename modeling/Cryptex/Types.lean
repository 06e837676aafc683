import Mathlib.Data.List.Basic
import Mathlib.Data.List.Induction
import Mathlib.Tactic.Ring

/-!
# Machine types

Bytes, the big-endian 32- and 64-byte hash values, sequences whose size fits
`size_t`, and the compact form of a difficulty target (`types.cpp`).

`uint256_t` in the source wraps an OpenSSL BIGNUM of any size. It is used in
two ways: as a number of unbounded size (targets and cumulative work), which
is `Nat` here, and as the value of a 32-byte hash or of the 64-byte
proof-of-work hash, which are `Hash256` and `Hash512`.
-/

namespace Cryptex

abbrev Bytes := List UInt8

instance lawfulBEqBytes : LawfulBEq Bytes := inferInstance

/-- The members of a list are tried one by one, also where their type is finite. -/
instance (priority := 2000) decidableForallMem {α : Type*} (p : α → Prop) [DecidablePred p]
    (l : List α) : Decidable (∀ x ∈ l, p x) :=
  List.decidableBAll p l

instance (priority := 2000) decidableExistsMem {α : Type*} (p : α → Prop) [DecidablePred p]
    (l : List α) : Decidable (∃ x ∈ l, p x) :=
  List.decidableBEx p l

/-- A `uint256_t` that was read from 32 big-endian bytes. -/
abbrev Hash256 := BitVec 256

instance lawfulBEqHash256 : LawfulBEq Hash256 := inferInstance

/-- A `uint256_t` that was read from 64 big-endian bytes: the canonical block id. -/
abbrev Hash512 := BitVec 512

/-- A `std::vector` or `std::string`: its `size()` fits `size_t`. -/
structure Vec (α : Type*) where
  toList : List α
  size_lt : toList.length < 2 ^ 64 := by decide
deriving DecidableEq

namespace Vec

variable {α β : Type*}

theorem ext {u v : Vec α} (h : u.toList = v.toList) : u = v := by
  cases u; cases v; cases h; rfl

theorem nil_fits : ([] : List α).length < 2 ^ 64 := Nat.two_pow_pos 64

/-- Same-length update of every element, with its position. -/
def mapIdx (f : Nat → α → β) (v : Vec α) : Vec β :=
  ⟨v.toList.mapIdx f, by rw [List.length_mapIdx]; exact v.size_lt⟩

end Vec

/-! ## The larger and the smaller of two words -/

theorem uint32_toNat_max (a b : UInt32) : (max a b).toNat = max a.toNat b.toNat := by
  change (if a ≤ b then b else a).toNat = _
  split
  · next h => rw [max_eq_right (UInt32.le_iff_toNat_le.mp h)]
  · next h => rw [max_eq_left (Nat.le_of_not_le (mt UInt32.le_iff_toNat_le.mpr h))]

theorem uint64_toNat_min (a b : UInt64) : (min a b).toNat = min a.toNat b.toNat := by
  change (if a ≤ b then a else b).toNat = _
  split
  · next h => rw [min_eq_left (UInt64.le_iff_toNat_le.mp h)]
  · next h => rw [min_eq_right (Nat.le_of_not_le (mt UInt64.le_iff_toNat_le.mpr h))]

/-! ## Big-endian bytes -/

/-- `to_padded_bytes`: big-endian, left-padded to `width` bytes. -/
def toPaddedBytes : Nat → Nat → Bytes
  | 0, _ => []
  | width + 1, x => toPaddedBytes width (x / 256) ++ [UInt8.ofNat x]

/-- `from_bytes`: big-endian, arbitrary width. -/
def fromBytes (data : Bytes) : Nat :=
  data.foldl (fun acc b => acc * 256 + b.toNat) 0

theorem fromBytes_append_singleton (data : Bytes) (b : UInt8) :
    fromBytes (data ++ [b]) = fromBytes data * 256 + b.toNat := by
  simp [fromBytes]

theorem fromBytes_cons (b : UInt8) (rest : Bytes) :
    fromBytes (b :: rest) = b.toNat * 256 ^ rest.length + fromBytes rest := by
  induction rest using List.reverseRecOn with
  | nil => simp [fromBytes]
  | append_singleton rest b' ih =>
      rw [← List.cons_append, fromBytes_append_singleton, fromBytes_append_singleton, ih,
        List.length_append, List.length_singleton, pow_succ]
      ring

@[simp] theorem length_toPaddedBytes : ∀ (width x : Nat),
    (toPaddedBytes width x).length = width
  | 0, _ => rfl
  | width + 1, x => by
      rw [toPaddedBytes, List.length_append, length_toPaddedBytes width]; rfl

theorem fromBytes_toPaddedBytes : ∀ {width x : Nat}, x < 256 ^ width →
    fromBytes (toPaddedBytes width x) = x
  | 0, x, h => by
      have hx : x = 0 := by simpa using h
      subst hx; rfl
  | width + 1, x, h => by
      have hdiv : x / 256 < 256 ^ width := by
        rw [pow_succ] at h
        exact Nat.div_lt_of_lt_mul (by rw [Nat.mul_comm]; exact h)
      rw [toPaddedBytes, fromBytes_append_singleton, fromBytes_toPaddedBytes hdiv,
        UInt8.toNat_ofNat']
      omega

theorem fromBytes_lt : ∀ (data : Bytes), fromBytes data < 256 ^ data.length := by
  intro data
  induction data using List.reverseRecOn with
  | nil => decide
  | append_singleton data b ih =>
      rw [fromBytes_append_singleton, List.length_append, List.length_singleton, pow_succ]
      have := b.toNat_lt
      omega

theorem toPaddedBytes_fromBytes (data : Bytes) :
    toPaddedBytes data.length (fromBytes data) = data := by
  induction data using List.reverseRecOn with
  | nil => rfl
  | append_singleton data b ih =>
      have hb := b.toNat_lt
      rw [fromBytes_append_singleton, List.length_append, List.length_singleton, toPaddedBytes,
        show (fromBytes data * 256 + b.toNat) / 256 = fromBytes data by omega, ih]
      congr 2
      apply UInt8.toNat_inj.mp
      rw [UInt8.toNat_ofNat']
      omega

theorem toNat_lt_bytes {w n : Nat} (value : BitVec w) (hw : w = 8 * n) :
    value.toNat < 256 ^ n := by
  subst hw
  rw [show (256 : Nat) = 2 ^ 8 from rfl, ← Nat.pow_mul]
  exact value.isLt

theorem fromBytes_padded {w n : Nat} (value : BitVec w) (hw : w = 8 * n) :
    fromBytes (toPaddedBytes n value.toNat) = value.toNat :=
  fromBytes_toPaddedBytes (toNat_lt_bytes value hw)

theorem padded_fromBytes {w n : Nat} {data : Bytes} (h : data.length = n) (hw : w = 8 * n) :
    toPaddedBytes n (BitVec.ofNat w (fromBytes data)).toNat = data := by
  have hlt : fromBytes data < 2 ^ w := by
    refine lt_of_lt_of_eq (fromBytes_lt data) ?_
    rw [h, hw, Nat.pow_mul]
  rw [BitVec.toNat_ofNat, Nat.mod_eq_of_lt hlt, ← h, toPaddedBytes_fromBytes]

/-- `to_bytes` of a 32-byte value. -/
def Hash256.toBytes (h : Hash256) : Bytes := toPaddedBytes 32 h.toNat

@[simp] theorem Hash256.length_toBytes (h : Hash256) : h.toBytes.length = 32 :=
  length_toPaddedBytes 32 _

/-- The `uint256_t(array<uint8_t,32>)` constructor. -/
def Hash256.ofBytes (data : Bytes) : Hash256 := BitVec.ofNat 256 (fromBytes data)

theorem Hash256.ofBytes_toBytes (h : Hash256) : Hash256.ofBytes h.toBytes = h := by
  have hlt : h.toNat < 256 ^ 32 := by
    have := h.isLt
    norm_num at this ⊢
    exact this
  rw [Hash256.ofBytes, Hash256.toBytes, fromBytes_toPaddedBytes hlt, BitVec.ofNat_toNat,
    BitVec.setWidth_eq]

theorem Hash256.toBytes_injective : Function.Injective Hash256.toBytes :=
  Function.LeftInverse.injective Hash256.ofBytes_toBytes

theorem Hash256.toBytes_ofBytes {data : Bytes} (h : data.length = 32) :
    (Hash256.ofBytes data).toBytes = data := by
  have hlt : fromBytes data < 2 ^ 256 := by
    have := fromBytes_lt data
    rw [h] at this
    norm_num at this ⊢
    exact this
  rw [Hash256.ofBytes, Hash256.toBytes, BitVec.toNat_ofNat, Nat.mod_eq_of_lt hlt, ← h,
    toPaddedBytes_fromBytes]

/-- A number as a hash of the given width, when it fits. -/
def asHash (width x : Nat) : Option (BitVec width) :=
  if h : x < 2 ^ width then some (BitVec.ofFin ⟨x, h⟩) else none

@[simp] theorem asHash_toNat {width : Nat} (h : BitVec width) : asHash width h.toNat = some h := by
  rw [asHash, dif_pos h.isLt]
  rfl

theorem toNat_of_asHash {width x : Nat} {h : BitVec width} (hx : asHash width x = some h) :
    h.toNat = x := by
  rw [asHash] at hx
  split at hx
  · cases hx; rfl
  · cases hx

/-- The first 32 bytes of a 64-byte digest, as a big-endian number. -/
def Hash512.first (h : Hash512) : Hash256 := h.extractLsb' 256 256

@[simp] theorem Hash512.first_zero : Hash512.first 0 = 0 := by decide +kernel

/-- A digest that fits 32 bytes begins with 32 zero bytes. -/
theorem Hash512.first_eq_zero {h : Hash512} (hlt : h.toNat < 2 ^ 256) : Hash512.first h = 0 := by
  apply BitVec.eq_of_toNat_eq
  rw [Hash512.first, BitVec.extractLsb'_toNat, Nat.shiftRight_eq_div_pow, Nat.div_eq_of_lt hlt]
  rfl

/-! ## Compact targets -/

/-- `BN_num_bytes`. -/
def numBytes (x : Nat) : Nat := if x = 0 then 0 else Nat.log2 x / 8 + 1

/-- Compact target representation, as in `compact_target`. -/
structure CompactTarget where
  bits : UInt32
deriving DecidableEq

namespace CompactTarget

def exponent (c : CompactTarget) : Nat := c.bits.toNat >>> 24

def mantissa (c : CompactTarget) : Nat := c.bits.toNat &&& 0x007fffff

def expand (c : CompactTarget) : Nat :=
  if c.exponent ≤ 3 then c.mantissa >>> (8 * (3 - c.exponent))
  else c.mantissa <<< (8 * (c.exponent - 3))

/-- The leading three bytes of a target, left-aligned when it has fewer. -/
def leadingBytes (target : Nat) : Nat :=
  let size := numBytes target
  if size ≤ 3 then target <<< (8 * (3 - size)) else target >>> (8 * (size - 3))

def fromTarget (target : Nat) : CompactTarget :=
  let size := numBytes target
  if size = 0 then ⟨0⟩
  else
    let mantissa := leadingBytes target
    if mantissa &&& 0x00800000 ≠ 0 then
      ⟨UInt32.ofNat (((size + 1) <<< 24) ||| ((mantissa >>> 8) &&& 0x007fffff))⟩
    else
      ⟨UInt32.ofNat ((size <<< 24) ||| (mantissa &&& 0x007fffff))⟩

def isNegative (c : CompactTarget) : Bool := c.bits.toNat &&& 0x00800000 ≠ 0

def isZero (c : CompactTarget) : Bool := c.mantissa = 0

def overflows (c : CompactTarget) (widthBytes : Nat) : Bool :=
  if c.mantissa = 0 then false
  else
    c.exponent > widthBytes + 2 ||
      (c.mantissa > 0xff && c.exponent > widthBytes + 1) ||
      (c.mantissa > 0xffff && c.exponent > widthBytes)

def isCanonical (c : CompactTarget) (widthBytes : Nat) : Bool :=
  if c.isNegative then false
  else if c.overflows widthBytes then false
  else if c.isZero then c.bits = 0
  else (fromTarget c.expand).bits = c.bits

end CompactTarget

end Cryptex
