import Cryptex.Bridge.DaemonFrames

/-!
# The identity of a deposit

What `compute_deposit_id` derives, as long as `cast` encodes and hashes as it
documents, and the texts it derives it from: ids of 32 bytes and normalized
addresses stand for one value each.
-/

namespace Cryptex

namespace Bridge

open Interaction Action

/-! ## Texts of fixed-width values -/

theorem hexDigits_injective : Function.Injective Text.hexDigits := fun x y h => by
  have hread := congrArg Text.fromHex h
  rw [Text.fromHex_hexDigits, Text.fromHex_hexDigits] at hread
  exact Option.some.inj hread

theorem ofBytes_injective {x y : Bytes} (h : Text.ofBytes x = Text.ofBytes y) : x = y :=
  hexDigits_injective (List.cons.inj (List.cons.inj h).2).2

theorem addressText_injective : Function.Injective addressText := fun a b h => by
  have hvalue := congrArg fromBytes (ofBytes_injective h)
  have hlt : ∀ a : Address, a.toNat < 256 ^ 20 := fun a => lt_of_lt_of_eq a.isLt (by norm_num)
  rw [fromBytes_toPaddedBytes (hlt a), fromBytes_toPaddedBytes (hlt b)] at hvalue
  exact BitVec.eq_of_toNat_eq hvalue

theorem hexDigit_of_mem : ∀ ch ∈ Text.ofString "0123456789abcdef",
    ∃ d < 16, ch = Text.hexDigit d := by decide

/-- Pairs of lower case digits are the digits of some bytes. -/
theorem exists_hexDigits : ∀ (n : Nat) (t : Text), t.length = 2 * n →
    (∀ ch ∈ t, ch ∈ Text.ofString "0123456789abcdef") →
    ∃ data : Bytes, data.length = n ∧ t = Text.hexDigits data
  | 0, t, hlength, _ => ⟨[], rfl, List.eq_nil_of_length_eq_zero hlength⟩
  | n + 1, [], hlength, _ => by simp at hlength
  | n + 1, [_], hlength, _ => by simp at hlength; omega
  | n + 1, hi :: lo :: rest, hlength, hmem => by
      obtain ⟨x, hx, rfl⟩ := hexDigit_of_mem hi (hmem hi List.mem_cons_self)
      obtain ⟨y, hy, rfl⟩ := hexDigit_of_mem lo (hmem lo (List.mem_cons_of_mem _ List.mem_cons_self))
      obtain ⟨data, hdata, rfl⟩ := exists_hexDigits n rest
        (by rw [List.length_cons, List.length_cons] at hlength; omega)
        fun ch hch => hmem ch (List.mem_cons_of_mem _ (List.mem_cons_of_mem _ hch))
      refine ⟨UInt8.ofNat (16 * x + y) :: data, by rw [List.length_cons, hdata], ?_⟩
      have hvalue : (UInt8.ofNat (16 * x + y)).toNat = 16 * x + y := by
        rw [UInt8.toNat_ofNat']
        omega
      rw [Text.hexDigits, hvalue, show (16 * x + y) / 16 = x by omega,
        show (16 * x + y) % 16 = y by omega]

/-- What `ensure_bytes32` lets through is the text of a 32-byte value. -/
theorem ensureBytes32_ok {value t : Text} (h : ensureBytes32 value = .ok t) :
    ∃ hash : Hash256, t = Text.ofBytes hash.toBytes := by
  unfold ensureBytes32 at h
  dsimp only at h
  split at h
  · cases h
  · next hgood =>
      cases h
      have hlength : (Text.dropPrefix (Text.lower value)).length = 2 * 32 :=
        not_not.mp fun hne => hgood (.inl hne)
      obtain ⟨data, hdata, heq⟩ := exists_hexDigits 32 _ hlength
        fun ch hch => not_not.mp fun hnot => hgood (.inr ⟨ch, hch, hnot⟩)
      exact ⟨Hash256.ofBytes data, by rw [Hash256.toBytes_ofBytes hdata, heq, Text.ofBytes]⟩

theorem dropPrefix_hexDigits : ∀ data : Bytes,
    Text.dropPrefix (Text.hexDigits data) = Text.hexDigits data
  | [] => rfl
  | b :: rest => by
      rw [Text.hexDigits, Text.dropPrefix.eq_2]
      rintro l hl
      have hx := (List.cons.inj (List.cons.inj hl).2).1
      exact absurd hx
        ((by decide : ∀ d < 16, Text.hexDigit d ≠ 'x') (b.toNat % 16) (Nat.mod_lt _ (by decide)))

/-- The id that the node shows is a 32-byte value. -/
theorem ensureBytes32_txidText (hash : Hash256) :
    ensureBytes32 (txidText hash) = .ok (Text.ofBytes hash.toBytes) := by
  refine ensureBytes32_of_hexDigits (Hash256.length_toBytes hash) ?_
  rw [txidText, Text.lower_hexDigits, dropPrefix_hexDigits]

/-! ## Normalized addresses -/

/-- `lower` moves the upper case letters and nothing else. -/
theorem toLower_cases (ch : Char) :
    (65 ≤ ch.toNat ∧ ch.toNat ≤ 90 ∧ ch.toLower.toNat = ch.toNat + 32) ∨
      (¬ (65 ≤ ch.toNat ∧ ch.toNat ≤ 90) ∧ ch.toLower = ch) := by
  unfold Char.toLower
  split
  · next h =>
      have hhigh : ch.val.toNat ≤ 90 := h.2
      refine .inl ⟨h.1, hhigh, ?_⟩
      show (ch.val + 32).toNat = ch.val.toNat + 32
      rw [UInt32.toNat_add]
      show (ch.val.toNat + 32) % 2 ^ 32 = _
      omega
  · next h => exact .inr ⟨fun hrange => h ⟨hrange.1, hrange.2⟩, rfl⟩

/-- A digit that is no upper case letter. -/
theorem hexDigit_of_isHexDigit {ch : Char} (hlower : ¬ (65 ≤ ch.toNat ∧ ch.toNat ≤ 90))
    (h : isHexDigit ch = true) : ∃ d < 16, ch = Text.hexDigit d := by
  rw [isHexDigit, Text.hexVal] at h
  split at h
  · next hdigit =>
      refine ⟨ch.toNat - 48, by omega, ?_⟩
      rw [Text.hexDigit, if_pos (by omega), show 48 + (ch.toNat - 48) = ch.toNat by omega,
        Char.ofNat_toNat]
  · split at h
    · next hletter =>
        refine ⟨ch.toNat - 87, by omega, ?_⟩
        rw [Text.hexDigit, if_neg (by omega), show 87 + (ch.toNat - 87) = ch.toNat by omega,
          Char.ofNat_toNat]
    · split at h
      · next hupper => exact absurd ⟨hupper.1, by omega⟩ hlower
      · cases h

theorem eq_lineBreak_of_toLower {ch : Char} (h : ch.toLower = '\n') : ch = '\n' := by
  rcases toLower_cases ch with ⟨hlow, -, hsum⟩ | ⟨-, hsame⟩
  · have hten : ch.toLower.toNat = 10 := congrArg Char.toNat h
    omega
  · exact hsame.symm.trans h

/-- A stripped text does not end in white space. -/
theorem strip_last {t s : Text} {ch : Char} (h : Text.strip t = s ++ [ch]) :
    Text.isStripped ch = false := by
  have hrev := congrArg List.reverse h
  rw [Text.strip, List.reverse_reverse, List.reverse_append, List.reverse_singleton,
    List.singleton_append] at hrev
  have hhead := List.head?_dropWhile_not Text.isStripped (t.dropWhile Text.isStripped).reverse
  rw [hrev] at hhead
  exact Bool.eq_false_iff.mpr fun hch => by simp [hch] at hhead

/-- A normalized address is the text of an address. -/
theorem normalizeEvmAddress_ok {address t : Text} (h : normalizeEvmAddress address = .ok t) :
    ∃ a : Address, t = addressText a := by
  unfold normalizeEvmAddress at h
  dsimp only at h
  split at h
  · next hre =>
      cases h
      generalize ht : Text.lower (Text.strip address) = t at hre
      rw [evmAddressRe.eq_def] at hre
      split at hre
      · next rest =>
          simp only [Bool.and_eq_true, Bool.or_eq_true, decide_eq_true_eq, List.all_eq_true] at hre
          obtain ⟨⟨hlength, hall⟩, hend⟩ := hre
          have hnotBreak : rest.drop 40 ≠ ['\n'] := by
            intro hbreak
            have hsplit : Text.lower (Text.strip address) = ('0' :: 'x' :: rest.take 40) ++ ['\n'] := by
              rw [ht, List.cons_append, List.cons_append, ← hbreak, List.take_append_drop]
            obtain ⟨s, l, heq, -, hl⟩ := List.map_eq_append_iff.mp hsplit
            obtain ⟨ch, rfl, hch⟩ := List.map_eq_singleton_iff.mp hl
            have hch := eq_lineBreak_of_toLower hch
            exact absurd (strip_last heq) (by rw [hch]; decide)
          have hrest : rest = rest.take 40 := by
            conv_lhs => rw [← List.take_append_drop 40 rest, hend.resolve_right hnotBreak,
              List.append_nil]
          rw [← hrest] at hlength hall
          have hmem : ∀ ch ∈ rest, ch ∈ Text.ofString "0123456789abcdef" := by
            intro ch hch
            have hch' : ch ∈ Text.lower (Text.strip address) := by
              rw [ht]
              exact List.mem_cons_of_mem _ (List.mem_cons_of_mem _ hch)
            obtain ⟨ch', -, rfl⟩ := List.mem_map.mp hch'
            have hlower : ¬ (65 ≤ ch'.toLower.toNat ∧ ch'.toLower.toNat ≤ 90) := by
              rcases toLower_cases ch' with ⟨hlow, -, hsum⟩ | ⟨hnot, hsame⟩
              · omega
              · rwa [hsame]
            obtain ⟨d, hd, hdigit⟩ := hexDigit_of_isHexDigit hlower (hall _ hch)
            rw [hdigit]
            exact hexDigit_mem d hd
          obtain ⟨data, hdata, rfl⟩ := exists_hexDigits 20 rest hlength hmem
          refine ⟨BitVec.ofNat 160 (fromBytes data), ?_⟩
          have hlt : fromBytes data < 2 ^ 160 :=
            lt_of_lt_of_eq (fromBytes_lt data) (by rw [hdata]; norm_num)
          rw [addressText, BitVec.toNat_ofNat, Nat.mod_eq_of_lt hlt, ← hdata, toPaddedBytes_fromBytes]
          rfl
      · cases hre
  · cases h

/-- The recipient of a memo is an address. -/
theorem extractRecipient_some {memoPrefix t : Text} : ∀ {vout : List (OutputJson Text)},
    extractRecipient memoPrefix vout = .ok (some t) → ∃ a : Address, t = addressText a
  | [], h => by cases h
  | output :: rest, h => by
      rw [extractRecipient] at h
      split at h
      · exact extractRecipient_some h
      · split at h
        · exact extractRecipient_some h
        · dsimp only at h
          split at h
          · cases hnormalize : normalizeEvmAddress (Text.strip _) with
            | error e =>
                rw [hnormalize] at h
                cases h
            | ok t' =>
                rw [hnormalize] at h
                cases h
                exact normalizeEvmAddress_ok hnormalize
          · exact extractRecipient_some h

theorem not_stripped_ofBytes {data : Bytes} {ch : Char} (h : ch ∈ Text.ofBytes data) :
    Text.isStripped ch = false := by
  rcases List.mem_cons.mp h with rfl | h
  · rfl
  · rcases List.mem_cons.mp h with rfl | h
    · rfl
    · obtain ⟨d, hd, rfl⟩ := Text.mem_hexDigits h
      exact Text.hexDigit_not_stripped d hd

theorem lower_ofBytes (data : Bytes) : Text.lower (Text.ofBytes data) = Text.ofBytes data := by
  rw [Text.ofBytes, Text.lower_withPrefix, Text.lower_hexDigits]

/-- Normalizing the text of an address changes nothing. -/
theorem normalizeEvmAddress_addressText (a : Address) :
    normalizeEvmAddress (addressText a) = .ok (addressText a) := by
  have hlower : Text.lower (Text.strip (addressText a)) = addressText a := by
    rw [addressText, Text.strip_of_not_space fun ch hch => not_stripped_ofBytes hch, lower_ofBytes]
  have hlength : (Text.hexDigits (toPaddedBytes 20 a.toNat)).length = 40 := by
    rw [Text.length_hexDigits, length_toPaddedBytes]
  have hre : evmAddressRe (addressText a) = true := by
    rw [addressText, Text.ofBytes, Text.withPrefix, evmAddressRe, List.take_of_length_le (by omega),
      List.drop_of_length_le (by omega), hlength]
    simp only [decide_true, Bool.true_and, Bool.true_or, Bool.and_true, List.all_eq_true]
    intro ch hch
    obtain ⟨d, hd, rfl⟩ := Text.mem_hexDigits hch
    rw [isHexDigit, Text.hexVal_hexDigit d hd]
    rfl
  unfold normalizeEvmAddress
  simp only [hlower]
  rw [if_pos hre]

/-! ## What `cast` prints -/

theorem splitLines_of_not_lineBreak : ∀ {t : Text}, t ≠ [] →
    (∀ ch ∈ t, isLineBreak ch = false) → splitLines t = [t]
  | [ch], _, h => by
      rw [splitLines.eq_def]
      simp [h ch List.mem_cons_self, splitLines]
  | ch :: next :: rest, _, h => by
      have hrest := splitLines_of_not_lineBreak (List.cons_ne_nil next rest)
        fun x hx => h x (List.mem_cons_of_mem _ hx)
      have hch := h ch List.mem_cons_self
      rw [splitLines.eq_3]
      · rw [hch, if_neg Bool.false_ne_true, hrest]
      · rintro _ rfl -
        exact absurd hch (by decide)

theorem not_lineBreak_ofBytes {data : Bytes} {ch : Char} (h : ch ∈ Text.ofBytes data) :
    isLineBreak ch = false := by
  rcases List.mem_cons.mp h with rfl | h
  · rfl
  · rcases List.mem_cons.mp h with rfl | h
    · rfl
    · obtain ⟨d, hd, rfl⟩ := Text.mem_hexDigits h
      exact (by decide : ∀ d < 16, isLineBreak (Text.hexDigit d) = false) d hd

/-- One printed value is the last line. -/
theorem lastLine_ofBytes (data : Bytes) : lastLine (Text.ofBytes data) = .ok (Text.ofBytes data) := by
  have hne : Text.ofBytes data ≠ [] := List.cons_ne_nil _ _
  rw [lastLine, splitLines_of_not_lineBreak hne fun ch hch => not_lineBreak_ofBytes hch]
  show Except.ok (Text.strip (Text.ofBytes data)) = _
  rw [Text.strip_of_not_space fun ch hch => not_stripped_ofBytes hch]

/-! ## Deposits -/

/-- An output to the reserve, with what its transaction says in the memo. -/
structure Deposit where
  txHash : Hash256
  index : Nat
  recipient : Address
  sats : Nat
deriving DecidableEq

namespace Deposit

/-- The place of the output. -/
def outpoint (d : Deposit) : Hash256 × Nat := (d.txHash, d.index)

/-- What is hashed to the id of the deposit. -/
def encoded (d : Deposit) : Bytes :=
  abiEncode [.word d.txHash, .word (BitVec.ofNat 256 d.index), addressWord d.recipient,
    .word (BitVec.ofNat 256 d.sats)]

def id (evm : Evm) (d : Deposit) : Hash256 := evm.keccak256 d.encoded

end Deposit

/-- What `cast abi-encode` and `cast keccak` print when they print anything. -/
def CastAnswers (evm : Evm) : (i : Request) → Reply i → Prop
  | .castAbiEncode nativeTxid outputIndex recipient amountSats, r => ∀ d : Deposit, ∀ t,
      nativeTxid = Text.ofBytes d.txHash.toBytes → outputIndex = d.index →
      recipient = addressText d.recipient → amountSats = d.sats → r = .ok t →
      t = Text.ofBytes d.encoded
  | .castKeccak encoded, r => ∀ data t, encoded = Text.ofBytes data → r = .ok t →
      t = Text.ofBytes (evm.keccak256 data).toBytes
  | _, _ => True

/-- The arguments of `compute_deposit_id` are those of a deposit. -/
structure Deposit.Given (d : Deposit) (nativeTxid : Text) (outputIndex : Nat) (recipient : Text)
    (amountSats : Int) : Prop where
  txid : ensureBytes32 nativeTxid = .ok (Text.ofBytes d.txHash.toBytes)
  index : outputIndex = d.index
  recipient : normalizeEvmAddress recipient = .ok (addressText d.recipient)
  sats : amountSats = d.sats

section ComputeDepositId

variable {evm : Evm} {W : Type} {answers : Prog.Answers Request Reply W} {safe : W → Prop}
  {pre : Daemon → W → Prop} {nativeTxid : Text} {outputIndex : Nat} {recipient : Text}
  {amountSats : Int}

/-- A question whose answer is as documented. -/
theorem triple_cast {facts : Prop} {i : Request} {post : i.Value → Prop}
    (hkeep : ∀ s w w' r, safe w → pre s w → answers w i w' r → safe w' ∧ pre s w')
    (hpost : ∀ w w' r, facts → answers w i w' (.ok r) → post r) :
    Triple answers safe (fun s w => pre s w ∧ facts) (call i) (fun r s w => pre s w ∧ post r)
      (fun _ => pre) := by
  refine .request ?_ ?_
  · rintro s w w' r hsafe ⟨hpre, hfacts⟩ ha
    obtain ⟨hsafe', hpre'⟩ := hkeep s w w' _ hsafe hpre ha
    exact ⟨hsafe', hpre', hpost w w' r hfacts ha⟩
  · rintro s w w' e hsafe ⟨hpre, -⟩ ha
    exact hkeep s w w' _ hsafe hpre ha

/-- A text that is determined by the deposit that the arguments are of. -/
structure Printed (nativeTxid : Text) (outputIndex : Nat) (recipient : Text) (amountSats : Int)
    (f : Deposit → Bytes) (t : Text) : Prop where
  checked : ∃ txid, ensureBytes32 nativeTxid = .ok txid
  eq : ∀ d : Deposit, d.Given nativeTxid outputIndex recipient amountSats → t = Text.ofBytes (f d)

/-- When `cast` does what it documents, the id depends on the deposit alone. -/
theorem triple_computeDepositId
    (hcast : ∀ w i w' r, answers w i w' r → CastAnswers evm i r)
    (hencode : ∀ txid n a v s w w' r, safe w → pre s w →
      answers w (.castAbiEncode txid n a v) w' r → safe w' ∧ pre s w')
    (hkeccak : ∀ t s w w' r, safe w → pre s w → answers w (.castKeccak t) w' r →
      safe w' ∧ pre s w') :
    Triple answers safe pre (computeDepositId nativeTxid outputIndex recipient amountSats)
      (fun depositId s w => pre s w ∧
        Printed nativeTxid outputIndex recipient amountSats (fun d => (d.id evm).toBytes) depositId)
      (fun _ => pre) := by
  refine .bind (m := fun txid s w => pre s w ∧ ensureBytes32 nativeTxid = .ok txid)
    (.lift (fun _ _ _ heq _ h => ⟨h, heq⟩) fun _ _ _ _ _ h => h) fun txid => ?_
  refine .bind (m := fun payee s w => pre s w ∧ ensureBytes32 nativeTxid = .ok txid ∧
      normalizeEvmAddress recipient = .ok payee)
    (.lift (fun _ _ _ heq _ h => ⟨h.1, h.2, heq⟩) fun _ _ _ _ _ h => h.1) fun payee => ?_
  refine .bind (m := fun encoded s w => pre s w ∧
      Printed nativeTxid outputIndex recipient amountSats Deposit.encoded encoded)
    (triple_cast (hencode _ _ _ _) fun w w' r hargs ha => ⟨⟨txid, hargs.1⟩, fun d hd => ?_⟩)
    fun encoded => ?_
  · exact hcast _ _ _ _ ha d r (Except.ok.inj (hargs.1.symm.trans hd.txid)) hd.index
      (Except.ok.inj (hargs.2.symm.trans hd.recipient)) hd.sats rfl
  · refine .bind (m := fun output s w => pre s w ∧
        Printed nativeTxid outputIndex recipient amountSats (fun d => (d.id evm).toBytes) output)
      (triple_cast (hkeccak _) fun w w' r h ha => ⟨h.checked, fun d hd => ?_⟩) fun output => ?_
    · exact hcast _ _ _ _ ha d.encoded r (h.eq d hd) rfl
    · refine .bind (m := fun line s w => pre s w ∧
          Printed nativeTxid outputIndex recipient amountSats (fun d => (d.id evm).toBytes) line)
        (.lift (fun line s w hline _ h => ⟨h.1, h.2.checked, fun d hd => ?_⟩) fun _ _ _ _ _ h => h.1)
        fun line => .pure fun s w _ h => ⟨h.1, h.2.checked, fun d hd => ?_⟩
      · rw [h.2.eq d hd, lastLine_ofBytes] at hline
        exact (Except.ok.inj hline).symm
      · rw [h.2.eq d hd, lower_ofBytes]

end ComputeDepositId

end Bridge

end Cryptex
