import Cryptex.Encoding.Base64
import Cryptex.Lib.Radix

/-!
# Bech32

The checksummed encoding of `base64.cpp` and the conversion between groups of
eight and of five bits that its addresses use.
-/

namespace Cryptex

namespace Encoding

/-! ## Characters -/

def isUpper (ch : UInt8) : Bool := 65 ≤ ch && ch ≤ 90

def isLower (ch : UInt8) : Bool := 97 ≤ ch && ch ≤ 122

/-- `std::tolower`. -/
def toLower (ch : UInt8) : UInt8 := if isUpper ch then ch + 32 else ch

def bech32Charset : Bytes := chars "qpzry9x8gf2tvdw0s3jn54khce6mua7l"

def bech32Char (value : UInt8) : UInt8 := bech32Charset.getD value.toNat 0

/-- The group of five bits of a character, if it has one. -/
def bech32Value (ch : UInt8) : Option UInt8 :=
  if ch ∈ bech32Charset then some (UInt8.ofNat (bech32Charset.idxOf ch)) else none

/-- `1`, between the human-readable part and the data. -/
def separator : UInt8 := 49

/-! ## The checksum -/

/-- The body of the loop of `bech32_polymod`. -/
def polymodStep (chk : BitVec 32) (v : UInt8) : BitVec 32 :=
  let top : BitVec 8 := (chk >>> 25).setWidth 8
  let chk := ((chk &&& 0x1ffffff) <<< 5) ^^^ v.toBitVec.setWidth 32
  let chk := if top &&& 1 ≠ 0 then chk ^^^ 0x3b6a57b2 else chk
  let chk := if top &&& 2 ≠ 0 then chk ^^^ 0x26508e6d else chk
  let chk := if top &&& 4 ≠ 0 then chk ^^^ 0x1ea119fa else chk
  let chk := if top &&& 8 ≠ 0 then chk ^^^ 0x3d4233dd else chk
  if top &&& 16 ≠ 0 then chk ^^^ 0x2a1462b3 else chk

/-- `bech32_polymod`. -/
def bech32Polymod (values : Bytes) : BitVec 32 := values.foldl polymodStep 1

/-- `bech32_hrp_expand`. -/
def bech32HrpExpand (hrp : Bytes) : Bytes :=
  hrp.map (fun ch => toLower ch >>> 5) ++ 0 :: hrp.map (fun ch => toLower ch &&& 31)

/-- `bech32_create_checksum`. -/
def bech32CreateChecksum (hrp data : Bytes) : Bytes :=
  let values := bech32HrpExpand hrp ++ data ++ List.replicate 6 0
  let mod := bech32Polymod values ^^^ 1
  (List.range 6).map fun i => UInt8.ofBitVec (((mod >>> (5 * (5 - i))) &&& 31).setWidth 8)

/-- `bech32_verify_checksum`. -/
def bech32VerifyChecksum (hrp data : Bytes) : Bool :=
  bech32Polymod (bech32HrpExpand hrp ++ data) = 1

/-! ## Encoding and decoding -/

/-- `bech32_encode`. -/
def bech32Encode (hrp data : Bytes) : Bytes :=
  hrp ++ separator :: (data.map bech32Char ++ (bech32CreateChecksum hrp data).map bech32Char)

/-- `std::string::rfind` of one character. -/
def rfind (ch : UInt8) (s : Bytes) : Option Nat :=
  (s.reverse.findIdx? (· = ch)).map fun i => s.length - 1 - i

/-- `bech32_decode`. -/
def bech32Decode (value : Bytes) : Option (Bytes × Bytes) :=
  if value = [] then none
  else if value.any isLower && value.any isUpper then none
  else
    let lower := value.map toLower
    match rfind separator lower with
    | none => none
    | some pos =>
        if pos = 0 ∨ pos + 7 > lower.length then none
        else
          let hrp := lower.take pos
          match (lower.drop (pos + 1)).mapM bech32Value with
          | none => none
          | some data =>
              if bech32VerifyChecksum hrp data then some (hrp, data.take (data.length - 6)) else none

/-! ## Groups of bits -/

/-- The inner loop of `convert_bits`, which does not end without output bits. -/
def drainBits (toBits acc bits : Nat) (out : Bytes) : Nat × Bytes :=
  if 0 < toBits ∧ toBits ≤ bits then
    drainBits toBits acc (bits - toBits)
      (out ++ [UInt8.ofNat ((acc >>> (bits - toBits)) &&& (1 <<< toBits - 1))])
  else (bits, out)
termination_by bits

/-- The outer loop of `convert_bits`: the accumulator, its bits and the
output. -/
def convertLoop (fromBits toBits acc bits : Nat) (out : Bytes) : Bytes → Option (Nat × Nat × Bytes)
  | [] => some (acc, bits, out)
  | value :: rest =>
      if value.toNat >>> fromBits ≠ 0 then none
      else
        let acc := (acc <<< fromBits ||| value.toNat) &&& (1 <<< (fromBits + toBits - 1) - 1)
        let (bits, out) := drainBits toBits acc (bits + fromBits) out
        convertLoop fromBits toBits acc bits out rest

/-- `convert_bits`. -/
def convertBits (input : Bytes) (fromBits toBits : Nat) (pad : Bool) : Option Bytes :=
  match convertLoop fromBits toBits 0 0 [] input with
  | none => none
  | some (acc, bits, out) =>
      let last := (acc <<< (toBits - bits)) &&& (1 <<< toBits - 1)
      if pad then some (if bits > 0 then out ++ [UInt8.ofNat last] else out)
      else if bits ≥ fromBits ∨ last ≠ 0 then none
      else some out

/-! ## The checksum is verified -/

theorem and_bit_ne_zero : ∀ (top : BitVec 8),
    (top &&& 1 ≠ 0 ↔ top.getLsbD 0 = true) ∧ (top &&& 2 ≠ 0 ↔ top.getLsbD 1 = true) ∧
      (top &&& 4 ≠ 0 ↔ top.getLsbD 2 = true) ∧ (top &&& 8 ≠ 0 ↔ top.getLsbD 3 = true) ∧
      (top &&& 16 ≠ 0 ↔ top.getLsbD 4 = true) := by decide

/-- A generator, when its bit is set. -/
def selected (b : Bool) (k : BitVec 32) : BitVec 32 := if b then k else 0

theorem selected_xor (b b' : Bool) (k : BitVec 32) :
    selected (b ^^ b') k = selected b k ^^^ selected b' k := by
  cases b <;> cases b' <;> simp [selected]

/-- What the five highest bits put back. -/
def feedback (chk : BitVec 32) : BitVec 32 :=
  selected (chk.getLsbD 25) 0x3b6a57b2 ^^^ (selected (chk.getLsbD 26) 0x26508e6d ^^^
    (selected (chk.getLsbD 27) 0x1ea119fa ^^^ (selected (chk.getLsbD 28) 0x3d4233dd ^^^
      selected (chk.getLsbD 29) 0x2a1462b3)))

theorem if_xor (p : Prop) [Decidable p] (b : Bool) (h : p ↔ b = true) (x k : BitVec 32) :
    (if p then x ^^^ k else x) = x ^^^ selected b k := by
  rw [selected]
  by_cases hp : p
  · rw [if_pos hp, if_pos (h.mp hp)]
  · rw [if_neg hp, if_neg (fun hb => hp (h.mpr hb))]
    exact BitVec.xor_zero.symm

/-- The step: shift, add the value, put back. -/
theorem polymodStep_eq (chk : BitVec 32) (v : UInt8) :
    polymodStep chk v
      = ((chk &&& 0x1ffffff) <<< 5) ^^^ feedback chk ^^^ v.toBitVec.setWidth 32 := by
  obtain ⟨h0, h1, h2, h3, h4⟩ := and_bit_ne_zero ((chk >>> 25).setWidth 8)
  simp only [polymodStep, if_xor _ _ h0, if_xor _ _ h1, if_xor _ _ h2, if_xor _ _ h3, if_xor _ _ h4]
  have hbit : ∀ i < 5, ((chk >>> 25).setWidth 8).getLsbD i = chk.getLsbD (25 + i) := by
    intro i hi
    rw [BitVec.getLsbD_setWidth, BitVec.getLsbD_ushiftRight, decide_eq_true (by omega),
      Bool.true_and]
  rw [hbit 0 (by omega), hbit 1 (by omega), hbit 2 (by omega), hbit 3 (by omega), hbit 4 (by omega),
    feedback]
  ac_rfl

theorem feedback_xor (x y : BitVec 32) : feedback (x ^^^ y) = feedback x ^^^ feedback y := by
  simp only [feedback, BitVec.getLsbD_xor, selected_xor]
  ac_rfl

/-- The highest bits of a small number put nothing back. -/
theorem feedback_of_lt {x : BitVec 32} (h : x.toNat < 2 ^ 25) : feedback x = 0 := by
  have hbit : ∀ i, 25 ≤ i → x.getLsbD i = false := by
    intro i hi
    exact Nat.testBit_lt_two_pow (Nat.lt_of_lt_of_le h (Nat.pow_le_pow_right (by omega) hi))
  rw [feedback, hbit 25 (by omega), hbit 26 (by omega), hbit 27 (by omega), hbit 28 (by omega),
    hbit 29 (by omega)]
  rfl

/-- The lowest five bits as a value. -/
def lowBits (x : BitVec 32) : UInt8 := UInt8.ofBitVec ((x &&& 31).setWidth 8)

/-- Above a number that lacks its lowest five bits, the step with these bits
completes it. -/
theorem polymodStep_lowBits (chk x : BitVec 32) (h : x.toNat < 2 ^ 30) :
    polymodStep (chk ^^^ (x >>> 5)) (lowBits x) = polymodStep chk 0 ^^^ x := by
  have hhigh : (x >>> 5).toNat < 2 ^ 25 := by
    rw [BitVec.toNat_ushiftRight, Nat.shiftRight_eq_div_pow]
    omega
  have hjoin : ((x >>> 5) &&& 0x1ffffff) <<< 5 ^^^ (lowBits x).toBitVec.setWidth 32 = x := by
    have hout : ∀ i, 30 ≤ i → x.getLsbD i = false := fun i hi =>
      Nat.testBit_lt_two_pow (Nat.lt_of_lt_of_le h (Nat.pow_le_pow_right (by omega) hi))
    have h30 : x[30] = false := hout 30 (by omega)
    have h31 : x[31] = false := hout 31 (by omega)
    refine BitVec.eq_of_getLsbD_eq fun i hi => ?_
    interval_cases i <;> simp [lowBits, h30, h31]
  have hshift : ((chk ^^^ (x >>> 5)) &&& 0x1ffffff) <<< 5
      = (chk &&& 0x1ffffff) <<< 5 ^^^ ((x >>> 5) &&& 0x1ffffff) <<< 5 := by
    rw [← BitVec.shiftLeft_xor_distrib]
    congr 1
    ext i hi
    simp only [BitVec.getElem_and, BitVec.getElem_xor, Bool.and_xor_distrib_right]
  rw [polymodStep_eq, polymodStep_eq, feedback_xor, feedback_of_lt hhigh, hshift]
  generalize feedback chk = f
  generalize (chk &&& 0x1ffffff) <<< 5 = low
  generalize ((x >>> 5) &&& 0x1ffffff) <<< 5 = high at hjoin ⊢
  calc low ^^^ high ^^^ (f ^^^ 0) ^^^ (lowBits x).toBitVec.setWidth 32
      = low ^^^ f ^^^ 0 ^^^ (high ^^^ (lowBits x).toBitVec.setWidth 32) := by ac_rfl
    _ = low ^^^ f ^^^ 0 ^^^ x := by rw [hjoin]

theorem toNat_selected_lt (b : Bool) {k : BitVec 32} (h : k.toNat < 2 ^ 30) :
    (selected b k).toNat < 2 ^ 30 := by
  rw [selected]
  split
  · exact h
  · exact Nat.two_pow_pos 30

theorem toNat_xor_lt {x y : BitVec 32} (hx : x.toNat < 2 ^ 30) (hy : y.toNat < 2 ^ 30) :
    (x ^^^ y).toNat < 2 ^ 30 := by
  rw [BitVec.toNat_xor]
  exact Nat.xor_lt_two_pow hx hy

theorem polymodStep_lt (chk : BitVec 32) (v : UInt8) : (polymodStep chk v).toNat < 2 ^ 30 := by
  have hshift : ((chk &&& 0x1ffffff) <<< 5).toNat < 2 ^ 30 := by
    have hand : (chk &&& 0x1ffffff).toNat ≤ 0x1ffffff := by
      rw [BitVec.toNat_and]
      exact Nat.and_le_right
    rw [BitVec.toNat_shiftLeft, Nat.shiftLeft_eq]
    omega
  have hfeedback : (feedback chk).toNat < 2 ^ 30 :=
    toNat_xor_lt (toNat_selected_lt _ (by decide)) (toNat_xor_lt (toNat_selected_lt _ (by decide))
      (toNat_xor_lt (toNat_selected_lt _ (by decide)) (toNat_xor_lt (toNat_selected_lt _ (by decide))
        (toNat_selected_lt _ (by decide)))))
  have hvalue : (v.toBitVec.setWidth 32).toNat < 2 ^ 30 := by
    have hv := v.toBitVec.isLt
    rw [BitVec.toNat_setWidth]
    omega
  rw [polymodStep_eq]
  exact toNat_xor_lt (toNat_xor_lt hshift hfeedback) hvalue

theorem bech32Polymod_lt (values : Bytes) : (bech32Polymod values).toNat < 2 ^ 30 := by
  rw [bech32Polymod]
  induction values using List.reverseRecOn with
  | nil => decide
  | append_singleton values v ih =>
      rw [List.foldl_append]
      exact polymodStep_lt _ v

/-- A number in groups of five bits. -/
def lowGroups : Nat → BitVec 32 → Bytes
  | 0, _ => []
  | n + 1, x => lowGroups n (x >>> 5) ++ [lowBits x]

theorem foldl_lowGroups (chk : BitVec 32) : ∀ {n : Nat} {x : BitVec 32}, n ≤ 6 →
    x.toNat < 2 ^ (5 * n) →
    (lowGroups n x).foldl polymodStep chk = (List.replicate n 0).foldl polymodStep chk ^^^ x
  | 0, x, _, h => by
      have hx : x = 0 := BitVec.eq_of_toNat_eq (by simpa using h)
      rw [hx]
      exact BitVec.xor_zero.symm
  | n + 1, x, hn, h => by
      have hshift : (x >>> 5).toNat < 2 ^ (5 * n) := by
        rw [BitVec.toNat_ushiftRight, Nat.shiftRight_eq_div_pow]
        rw [Nat.mul_add, pow_add] at h
        omega
      have hfits : x.toNat < 2 ^ 30 :=
        Nat.lt_of_lt_of_le h (Nat.pow_le_pow_right (by omega) (by omega))
      rw [lowGroups, List.foldl_append, foldl_lowGroups chk (by omega) hshift,
        List.replicate_succ', List.foldl_append]
      exact polymodStep_lowBits _ x hfits

theorem bech32CreateChecksum_eq (hrp data : Bytes) : bech32CreateChecksum hrp data
    = lowGroups 6 (bech32Polymod (bech32HrpExpand hrp ++ data ++ List.replicate 6 0) ^^^ 1) := by
  simp [bech32CreateChecksum, lowGroups, lowBits, List.range_succ]

/-- The checksum that was created is verified. -/
theorem bech32VerifyChecksum_create (hrp data : Bytes) :
    bech32VerifyChecksum hrp (data ++ bech32CreateChecksum hrp data) = true := by
  have hlt : (bech32Polymod (bech32HrpExpand hrp ++ data ++ List.replicate 6 0) ^^^ 1).toNat
      < 2 ^ (5 * 6) := toNat_xor_lt (bech32Polymod_lt _) (by decide)
  rw [bech32VerifyChecksum, bech32CreateChecksum_eq, ← List.append_assoc, decide_eq_true_eq]
  generalize hmod : bech32Polymod (bech32HrpExpand hrp ++ data ++ List.replicate 6 0) = mod at hlt ⊢
  rw [bech32Polymod, List.foldl_append] at hmod ⊢
  rw [foldl_lowGroups _ le_rfl hlt, hmod, ← BitVec.xor_assoc, BitVec.xor_self]
  rfl

/-! ## Groups of bits and back -/

section Groups

variable {a b : Nat}

theorem and_mask (x n : Nat) : x &&& (1 <<< n - 1) = x % 2 ^ n := by
  rw [Nat.shiftLeft_eq, Nat.one_mul, Nat.and_two_pow_sub_one_eq_mod]

theorem toNat_group {x : Nat} (hb : b ≤ 8) :
    (UInt8.ofNat (x &&& (1 <<< b - 1))).toNat = x % 2 ^ b := by
  rw [and_mask, UInt8.toNat_ofNat']
  refine Nat.mod_eq_of_lt (Nat.lt_of_lt_of_le (Nat.mod_lt x (Nat.two_pow_pos b)) ?_)
  exact Nat.pow_le_pow_right (by omega) hb

theorem drainBits_spec {input : List Nat} (hpos : 0 < b) (hb : b ≤ 8) (acc bits : Nat) (out : Bytes)
    (h : Radix.Regrouped a b input (out.map UInt8.toNat) acc bits) :
    Radix.Regrouped a b input ((drainBits b acc bits out).2.map UInt8.toNat) acc
      (drainBits b acc bits out).1 ∧ (drainBits b acc bits out).1 < b := by
  fun_induction drainBits b acc bits out with
  | case1 bits out hle ih =>
      refine ih ?_
      rw [List.map_append, List.map_singleton, toNat_group hb, Nat.shiftRight_eq_div_pow]
      exact h.write hle.2
  | case2 bits out hnot => exact ⟨h, by omega⟩

theorem convertLoop_spec (hpos : 0 < b) (hb : b ≤ 8) : ∀ (rest : Bytes) {input : List Nat}
    {acc bits : Nat} {out : Bytes}, (∀ v ∈ rest, v.toNat < 2 ^ a) →
    Radix.Regrouped a b input (out.map UInt8.toNat) acc bits → bits < b →
    ∃ acc' bits' out', convertLoop a b acc bits out rest = some (acc', bits', out') ∧
      Radix.Regrouped a b (input ++ rest.map UInt8.toNat) (out'.map UInt8.toNat) acc' bits' ∧ bits' < b
  | [], input, acc, bits, out, _, h, hbits =>
      ⟨acc, bits, out, rfl, by rwa [List.map_nil, List.append_nil], hbits⟩
  | v :: rest, input, acc, bits, out, hrest, h, hbits => by
      have hv := hrest v List.mem_cons_self
      have hread := h.read hv (w := a + b - 1) (by omega)
      have hacc : (acc <<< a ||| v.toNat) &&& (1 <<< (a + b - 1) - 1)
          = (acc * 2 ^ a + v.toNat) % 2 ^ (a + b - 1) := by
        rw [and_mask, shift_or a hv]
      obtain ⟨hdrain, hless⟩ := drainBits_spec hpos hb _ _ out hread
      have hfits : v.toNat >>> a = 0 := by
        rw [Nat.shiftRight_eq_div_pow, Nat.div_eq_of_lt hv]
      rw [convertLoop, if_neg (not_not.mpr hfits), hacc]
      obtain ⟨acc', bits', out', hloop, hfinal, hlast⟩ := convertLoop_spec hpos hb rest
        (fun w hw => hrest w (List.mem_cons_of_mem _ hw)) hdrain hless
      refine ⟨acc', bits', out', hloop, ?_, hlast⟩
      rwa [List.map_cons, List.append_cons]

theorem map_toNat_padded (acc bits : Nat) (out : Bytes) (hb : b ≤ 8) :
    (if bits > 0 then out ++ [UInt8.ofNat ((acc <<< (b - bits)) &&& (1 <<< b - 1))] else out).map
        UInt8.toNat = Radix.padded b (out.map UInt8.toNat) acc bits := by
  rw [Radix.padded]
  split
  · rw [List.map_append, List.map_singleton, toNat_group hb, Nat.shiftLeft_eq]
  · rfl

theorem convertLoop_start (hpos : 0 < b) (hb : b ≤ 8) {data : Bytes}
    (hdata : ∀ v ∈ data, v.toNat < 2 ^ a) : ∃ acc bits out,
    convertLoop a b 0 0 [] data = some (acc, bits, out) ∧
      Radix.Regrouped a b (data.map UInt8.toNat) (out.map UInt8.toNat) acc bits ∧ bits < b := by
  have hstart : Radix.Regrouped a b [] (([] : Bytes).map UInt8.toNat) 0 0 := .start
  exact convertLoop_spec hpos hb data hdata hstart hpos

theorem map_toNat_injective : Function.Injective (List.map UInt8.toNat) :=
  List.map_injective_iff.mpr fun _ _ => UInt8.toNat_inj.mp

theorem forall_map_toNat {data : Bytes} {n : Nat} (h : ∀ v ∈ data, v.toNat < n) :
    ∀ d ∈ data.map UInt8.toNat, d < n := by
  intro d hd
  obtain ⟨v, hv, rfl⟩ := List.mem_map.mp hd
  exact h v hv

/-- The groups of some data, padded, and the data that is read back from
them. -/
theorem convertBits_convertBits {data : Bytes} (hpos : 0 < b) (hle : b ≤ a) (ha : a ≤ 8)
    (hdata : ∀ v ∈ data, v.toNat < 2 ^ a) : ∃ groups : Bytes,
    convertBits data a b true = some groups ∧ (∀ g ∈ groups, g.toNat < 2 ^ b) ∧
      convertBits groups b a false = some data := by
  have hb : b ≤ 8 := hle.trans ha
  obtain ⟨acc, bits, out, hloop, hgroups, hbits⟩ := convertLoop_start hpos hb hdata
  have hpadded := map_toNat_padded acc bits out hb
  have hconvert : convertBits data a b true = some (if bits > 0 then
      out ++ [UInt8.ofNat ((acc <<< (b - bits)) &&& (1 <<< b - 1))] else out) := by
    rw [convertBits, hloop]
    rfl
  generalize (if bits > 0 then out ++ [UInt8.ofNat ((acc <<< (b - bits)) &&& (1 <<< b - 1))]
    else out) = groups at hpadded hconvert
  have hsmall : ∀ g ∈ groups, g.toNat < 2 ^ b := by
    intro g hg
    refine Radix.padded_digits hgroups _ ?_
    rw [← hpadded]
    exact List.mem_map_of_mem hg
  obtain ⟨acc', bits', back, hloop', hback, hbits'⟩ :=
    convertLoop_start (hpos.trans_le hle) ha hsmall
  rw [hpadded] at hback
  obtain ⟨hsame, hless, hzero⟩ := hgroups.inverse hbits hle (forall_map_toNat hdata) hback hbits'
  have hlast : (acc' <<< (a - bits')) &&& (1 <<< a - 1) = 0 := by
    have hsplit : (2 : Nat) ^ a = 2 ^ bits' * 2 ^ (a - bits') := by
      rw [← pow_add, Nat.add_sub_cancel' (Nat.le_of_lt hbits')]
    rw [and_mask, Nat.shiftLeft_eq, hsplit, Nat.mul_mod_mul_right, hzero, Nat.zero_mul]
  refine ⟨groups, hconvert, hsmall, ?_⟩
  rw [convertBits, hloop', map_toNat_injective hsame]
  simp only [hlast, Bool.false_eq_true, if_false]
  rw [if_neg (by omega)]

/-- What is accepted without padding is what is written with it. -/
theorem convertBits_of_accepted {groups data : Bytes} (hpos : 0 < b) (hb : b ≤ 8) (ha : a ≤ 8)
    (hgroups : ∀ v ∈ groups, v.toNat < 2 ^ a) (h : convertBits groups a b false = some data) :
    convertBits data b a true = some groups := by
  obtain ⟨acc, bits, out, hloop, hread, hbits⟩ := convertLoop_start hpos hb hgroups
  rw [convertBits, hloop] at h
  simp only [Bool.false_eq_true, if_false] at h
  split at h
  · cases h
  · next hok =>
      cases h
      rw [not_or, Nat.not_le, not_not, and_mask, Nat.shiftLeft_eq] at hok
      have hzero : acc % 2 ^ bits = 0 := by
        have hsplit : (2 : Nat) ^ b = 2 ^ bits * 2 ^ (b - bits) := by
          rw [← pow_add, Nat.add_sub_cancel' (Nat.le_of_lt hbits)]
        have hlast := hok.2
        rw [hsplit, Nat.mul_mod_mul_right] at hlast
        exact (Nat.mul_eq_zero.mp hlast).resolve_right (Nat.two_pow_pos _).ne'
      have hdata : ∀ v ∈ data, v.toNat < 2 ^ b :=
        fun v hv => hread.digits _ (List.mem_map_of_mem hv)
      obtain ⟨acc', bits', back, hloop', hback, hbits'⟩ :=
        convertLoop_start (by omega : 0 < a) ha hdata
      have hsame := hread.recreate hok.1 hzero (forall_map_toNat hgroups) hback hbits'
      rw [← map_toNat_padded acc' bits' back ha] at hsame
      rw [convertBits, hloop']
      exact congrArg some (map_toNat_injective hsame)

/-- Without padding, less than an input group is left over. -/
theorem length_convertBits (hpos : 0 < b) (hb : b ≤ 8) {input out : Bytes}
    (hinput : ∀ v ∈ input, v.toNat < 2 ^ a) (h : convertBits input a b false = some out) :
    ∃ bits < a, b * out.length + bits = a * input.length := by
  obtain ⟨acc, bits, out', hloop, hgroups, -⟩ := convertLoop_start hpos hb hinput
  rw [convertBits, hloop] at h
  simp only [Bool.false_eq_true, if_false] at h
  split at h
  · cases h
  · next hok =>
      cases h
      have hlength := hgroups.length
      rw [List.length_map, List.length_map] at hlength
      exact ⟨bits, by omega, hlength⟩

end Groups

/-! ## Round trip -/

theorem bech32Value_char : ∀ i < 32, bech32Value (bech32Char (UInt8.ofNat i)) = some (UInt8.ofNat i) := by
  decide

theorem bech32Char_case : ∀ i < 32, isUpper (bech32Char (UInt8.ofNat i)) = false ∧
    bech32Char (UInt8.ofNat i) ≠ separator := by
  decide

theorem bech32Value_lt {ch v : UInt8} (h : bech32Value ch = some v) : v.toNat < 32 := by
  rw [bech32Value] at h
  split at h
  · next hmem =>
      cases h
      have hlt := List.idxOf_lt_length_of_mem hmem
      rw [UInt8.toNat_ofNat']
      have hlength : bech32Charset.length = 32 := by decide
      omega
  · cases h

theorem bech32Char_of_lt {v : UInt8} (h : v.toNat < 32) : bech32Value (bech32Char v) = some v ∧
    isUpper (bech32Char v) = false ∧ bech32Char v ≠ separator := by
  have hvalue := bech32Value_char v.toNat h
  obtain ⟨hcase, hsep⟩ := bech32Char_case v.toNat h
  rw [UInt8.ofNat_toNat] at hvalue hcase hsep
  exact ⟨hvalue, hcase, hsep⟩

theorem mapM_bech32Value : ∀ {l : Bytes}, (∀ v ∈ l, v.toNat < 32) →
    (l.map bech32Char).mapM bech32Value = some l
  | [], _ => rfl
  | v :: rest, h => by
      rw [List.map_cons, List.mapM_cons, (bech32Char_of_lt (h v List.mem_cons_self)).1,
        mapM_bech32Value fun w hw => h w (List.mem_cons_of_mem _ hw)]
      rfl

/-- What decoding the characters keeps. -/
theorem mapM_bech32Value_some : ∀ {s data : Bytes}, s.mapM bech32Value = some data →
    data.length = s.length ∧ ∀ v ∈ data, v.toNat < 32
  | [], _, h => by
      cases h
      exact ⟨rfl, nofun⟩
  | ch :: s, data, h => by
      rw [List.mapM_cons, Option.bind_eq_bind, Option.bind_eq_some_iff] at h
      obtain ⟨v, hv, h⟩ := h
      rw [Option.bind_eq_bind, Option.bind_eq_some_iff] at h
      obtain ⟨rest, hrest, h⟩ := h
      cases h
      obtain ⟨hlength, hsmall⟩ := mapM_bech32Value_some hrest
      refine ⟨by rw [List.length_cons, hlength, List.length_cons], fun w hw => ?_⟩
      rcases List.mem_cons.mp hw with rfl | hw
      · exact bech32Value_lt hv
      · exact hsmall w hw

theorem lowBits_lt (x : BitVec 32) : (lowBits x).toNat < 32 := by
  have hand : (x &&& 31).toNat ≤ 31 := by
    rw [BitVec.toNat_and]
    exact Nat.and_le_right
  rw [lowBits, UInt8.toNat_ofBitVec, BitVec.toNat_setWidth]
  omega

theorem lowGroups_lt : ∀ (n : Nat) (x : BitVec 32), (lowGroups n x).length = n ∧
    ∀ v ∈ lowGroups n x, v.toNat < 32
  | 0, _ => ⟨rfl, nofun⟩
  | n + 1, x => by
      obtain ⟨hlength, hsmall⟩ := lowGroups_lt n (x >>> 5)
      refine ⟨by rw [lowGroups, List.length_append, hlength, List.length_singleton], fun v hv => ?_⟩
      rcases List.mem_append.mp hv with hv | hv
      · exact hsmall v hv
      · rw [List.mem_singleton.mp hv]
        exact lowBits_lt x

/-- The last separator is where the part without one begins. -/
theorem rfind_append {ch : UInt8} {head tail : Bytes} (h : ch ∉ tail) :
    rfind ch (head ++ ch :: tail) = some head.length := by
  have hnone : tail.reverse.findIdx? (· = ch) = none := by
    rw [List.findIdx?_eq_none_iff]
    intro x hx
    simp only [decide_eq_false_iff_not]
    rintro rfl
    exact h (List.mem_reverse.mp hx)
  have hfind : (tail.reverse ++ ch :: head.reverse).findIdx? (· = ch) = some tail.length := by
    rw [List.findIdx?_append, hnone, List.findIdx?_cons, List.length_reverse]
    simp
  rw [rfind, List.reverse_append, List.reverse_cons, List.append_assoc, List.singleton_append, hfind,
    Option.map_some, List.length_append, List.length_cons]
  congr 1
  omega

theorem rfind_lt {ch : UInt8} {s : Bytes} {pos : Nat} (h : rfind ch s = some pos) :
    pos < s.length := by
  obtain ⟨i, hi, rfl⟩ := Option.map_eq_some_iff.mp h
  have hlt := (List.findIdx?_eq_some_iff_getElem.mp hi).1
  rw [List.length_reverse] at hlt
  omega

/-- What was encoded is decoded. -/
theorem bech32Decode_bech32Encode {hrp data : Bytes} (hne : hrp ≠ [])
    (hhrp : ∀ ch ∈ hrp, isUpper ch = false) (hdata : ∀ v ∈ data, v.toNat < 32) :
    bech32Decode (bech32Encode hrp data) = some (hrp, data) := by
  have hsum : ∀ v ∈ data ++ bech32CreateChecksum hrp data, v.toNat < 32 := by
    intro v hv
    rcases List.mem_append.mp hv with hv | hv
    · exact hdata v hv
    · rw [bech32CreateChecksum_eq] at hv
      exact (lowGroups_lt _ _).2 v hv
  have hsix : (bech32CreateChecksum hrp data).length = 6 := by
    rw [bech32CreateChecksum_eq]
    exact (lowGroups_lt _ _).1
  have hform : bech32Encode hrp data
      = hrp ++ separator :: (data ++ bech32CreateChecksum hrp data).map bech32Char := by
    rw [bech32Encode, List.map_append]
  have hverify := bech32VerifyChecksum_create hrp data
  generalize hall : data ++ bech32CreateChecksum hrp data = groups at hsum hform hverify
  have hupper : ∀ ch ∈ bech32Encode hrp data, isUpper ch = false := by
    intro ch hch
    rw [hform] at hch
    rcases List.mem_append.mp hch with hch | hch
    · exact hhrp ch hch
    · rcases List.mem_cons.mp hch with rfl | hch
      · decide
      · obtain ⟨v, hv, rfl⟩ := List.mem_map.mp hch
        exact (bech32Char_of_lt (hsum v hv)).2.1
  have hlower : (bech32Encode hrp data).map toLower = bech32Encode hrp data := by
    refine (List.map_congr_left fun ch hch => ?_).trans (List.map_id _)
    rw [toLower, hupper ch hch, if_neg Bool.false_ne_true]
    rfl
  have hany : (bech32Encode hrp data).any isUpper = false :=
    List.any_eq_false.mpr fun ch hch => by rw [hupper ch hch]; exact Bool.false_ne_true
  have hsep : separator ∉ groups.map bech32Char := by
    intro hmem
    obtain ⟨v, hv, hchar⟩ := List.mem_map.mp hmem
    exact (bech32Char_of_lt (hsum v hv)).2.2 hchar
  have hlength : groups.length = data.length + 6 := by rw [← hall, List.length_append, hsix]
  have hpos : hrp.length ≠ 0 := fun hzero => hne (List.length_eq_zero_iff.mp hzero)
  rw [bech32Decode, hany, Bool.and_false, if_neg Bool.false_ne_true, hlower, hform, if_neg (by simp)]
  simp only [rfind_append hsep, List.take_left, List.length_append, List.length_cons, List.length_map]
  rw [if_neg (by omega), List.drop_append, List.drop_of_length_le (by omega),
    Nat.add_sub_cancel_left, List.nil_append, List.drop_succ_cons, List.drop_zero,
    mapM_bech32Value hsum]
  simp only [hverify, if_true]
  rw [hlength, Nat.add_sub_cancel, ← hall, List.take_left]

/-- Bech32 decodes what it has encoded under a part that is not empty, and the
two directions of the regrouping undo each other. -/
theorem bech32_sound :
    (∀ hrp data : Bytes, hrp ≠ [] → (∀ ch ∈ hrp, isUpper ch = false) →
      (∀ v ∈ data, v.toNat < 32) → bech32Decode (bech32Encode hrp data) = some (hrp, data)) ∧
    (∀ data : Bytes, ∃ groups, convertBits data 8 5 true = some groups ∧
      convertBits groups 5 8 false = some data) ∧
    ∀ groups data : Bytes, (∀ v ∈ groups, v.toNat < 32) →
      convertBits groups 5 8 false = some data → convertBits data 8 5 true = some groups := by
  refine ⟨fun hrp data hne hhrp hdata => bech32Decode_bech32Encode hne hhrp hdata, fun data => ?_,
    fun groups data hgroups h => convertBits_of_accepted (by omega) (by omega) (by omega) hgroups h⟩
  obtain ⟨groups, hgroups, -, hback⟩ :=
    convertBits_convertBits (by omega : 0 < 5) (by omega : 5 ≤ 8) (by omega)
      (fun v (_ : v ∈ data) => v.toNat_lt)
  exact ⟨groups, hgroups, hback⟩

/-- Without a human-readable part nothing is decoded. -/
theorem not_bech32_sound : ¬ ∀ hrp data : Bytes, (∀ ch ∈ hrp, isUpper ch = false) →
    (∀ v ∈ data, v.toNat < 32) → bech32Decode (bech32Encode hrp data) = some (hrp, data) := by
  intro hall
  have hnone : bech32Decode (bech32Encode [] []) = none := by decide
  rw [hall [] [] nofun nofun] at hnone
  cases hnone

/-- The lengths of what is decoded. -/
theorem length_of_bech32Decode {s hrp data : Bytes} (h : bech32Decode s = some (hrp, data)) :
    s.length = hrp.length + data.length + 7 ∧ ∀ v ∈ data, v.toNat < 32 := by
  rw [bech32Decode] at h
  split at h
  · cases h
  · split at h
    · cases h
    · simp only at h
      split at h
      · cases h
      · next pos hpos =>
          split at h
          · cases h
          · next hroom =>
              split at h
              · cases h
              · next all hall =>
                  split at h
                  · cases h
                    obtain ⟨hlength, hsmall⟩ := mapM_bech32Value_some hall
                    have hlt := rfind_lt hpos
                    rw [List.length_map] at hlt hroom
                    rw [List.length_drop, List.length_map] at hlength
                    refine ⟨?_, fun v hv => hsmall v (List.mem_of_mem_take hv)⟩
                    rw [List.length_take, List.length_map, List.length_take]
                    omega
                  · cases h

end Encoding

end Cryptex
