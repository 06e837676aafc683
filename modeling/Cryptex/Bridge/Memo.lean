import Cryptex.PaymentDraft
import Cryptex.Regtest

/-!
# The memo of a deposit

What the daemon finds of the `op_return` text that the wallet was given. The
wallet stores the signature of the text behind `OP_RETURN:`, and the node looks
for a script that begins with the opcode 0x6a.
-/

namespace Cryptex

namespace Bridge

open Encoding

/-- The scripts that the wallet writes. -/
def WalletScript (script : Bytes) : Prop :=
  (∃ p : Payload, script = base64Encode p.bytes) ∨
    ∃ sig : Bytes, script = Mempool.opReturnPrefix ++ base64Encode sig

/-- Every output of a payment is an address or the signature of the
message. -/
theorem walletScript_createPayment {c : Crypto} {sha256 : Bytes → Hash256}
    {signHash : Hash256 → Bytes → Vec UInt8} {w : Wallet} {view : ChainView} {p : Payment}
    {tx : Transaction} (h : Wallet.createPayment c sha256 signHash w view p = .ok tx) :
    ∀ out ∈ tx.outputs.toList, WalletScript out.scriptPubKey.toList := by
  obtain ⟨d, addresses, hdraft, -, hsign⟩ := Wallet.createPayment_ok_iff.mp h
  obtain ⟨toScript, changeScript, memo, hto, hchange, hmemo, houtputs⟩ :=
    (Wallet.drafted hdraft).outputs
  rw [Wallet.signInputs_outputs hsign, houtputs]
  intro out hout
  rcases List.mem_cons.mp hout with rfl | hout
  · exact .inl hto
  · rcases List.mem_append.mp hout with hout | hout
    · split at hout
      · rw [List.mem_singleton.mp hout]
        exact .inl hchange
      · cases hout
    · split at hout
      · cases hout
      · next hne =>
          rw [List.mem_singleton.mp hout]
          exact .inr ⟨_, hmemo hne⟩

/-! ## What the node shows -/

theorem digit_ge : ∀ i < 64, 43 ≤ (encodeDigit i).toNat := by decide +kernel

/-- Every character of base 64 is above `*`. -/
theorem base64Encode_ge (data : Bytes) : ∀ ch ∈ base64Encode data, 43 ≤ ch.toNat := by
  obtain ⟨digits, padding, heq, hdigits, hpadding⟩ := digitsThenPadding_base64Encode data
  intro ch hch
  rw [heq] at hch
  rcases List.mem_append.mp hch with hch | hch
  · obtain ⟨i, rfl⟩ := hdigits ch hch
    rw [encodeDigit_mod]
    exact digit_ge _ (Nat.mod_lt _ (by omega))
  · have hpad : ch = padChar := by
      rcases hpadding with rfl | rfl | rfl
      · cases hch
      · exact List.mem_singleton.mp hch
      · simpa using hch
    rw [hpad]
    decide

/-- An address that begins with `j` asks for more bytes than it has. -/
theorem opReturnPayload_address (p : Payload) : opReturnPayload (base64Encode p.bytes) = [] := by
  have hlength : (base64Encode p.bytes).length = 28 := by
    rw [length_base64Encode, p.length_eq]
    rfl
  have hge := base64Encode_ge p.bytes
  generalize base64Encode p.bytes = s at hlength hge
  obtain ⟨x, opcode, y, z, pushed, rfl⟩ : ∃ x opcode y z pushed, s = x :: opcode :: y :: z :: pushed := by
    match s, hlength with
    | x :: opcode :: y :: z :: pushed, _ => exact ⟨x, opcode, y, z, pushed, rfl⟩
  have hopcode := hge opcode (by simp)
  have hy := hge y (by simp)
  simp only [List.length_cons] at hlength
  simp only [opReturnPayload, List.drop_succ_cons, List.drop_zero, List.length_cons,
    List.getD_cons_zero, List.getD_cons_succ]
  rw [if_neg (by omega)]
  split
  · exact if_neg (by omega)
  · split
    · have hor : y.toNat ≤ y.toNat ||| z.toNat <<< 8 := Nat.left_le_or
      exact if_neg (by omega)
    · rfl

/-- No output of a payment has a text. -/
theorem opReturnText_walletScript (sha256 : Bytes → Hash256) (n : Nat) {out : TxOut}
    (h : WalletScript out.scriptPubKey.toList) : (outputToJson sha256 n out).opReturnText = none := by
  rw [outputToJson]
  rcases h with ⟨p, hp⟩ | ⟨sig, hsig⟩
  · simp only [hp, opReturnPayload_address, ne_eq, not_true_eq_false, false_and, if_false]
    split <;> rfl
  · have hhead : out.scriptPubKey.toList.head? ≠ some 0x6a := by
      rw [hsig]
      exact fun heq => absurd (Option.some.inj heq) (by decide)
    rw [if_neg hhead]

theorem extractRecipient_none {memoPrefix : Text} : ∀ {vout : List (OutputJson Text)},
    (∀ output ∈ vout, output.opReturnText = none) → extractRecipient memoPrefix vout = .ok none
  | [], _ => rfl
  | output :: rest, h => by
      rw [extractRecipient, h output List.mem_cons_self]
      exact extractRecipient_none fun o ho => h o (List.mem_cons_of_mem _ ho)

/-- A text that the daemon reads is one that the node shows. -/
theorem opReturnText_of_decode {tx : TxJson Bytes} {json : TxJson Text} (h : tx.decode = .ok json)
    (hnone : ∀ output ∈ tx.vout, output.opReturnText = none) :
    ∀ output ∈ json.vout, output.opReturnText = none := by
  obtain ⟨txid, -, h⟩ := bind_eq_ok.mp h
  obtain ⟨vin, -, h⟩ := bind_eq_ok.mp h
  obtain ⟨vout, hvout, h⟩ := bind_eq_ok.mp h
  cases h
  intro output houtput
  obtain ⟨shown, hshown, hdecode⟩ := exists_of_forall₂ (mapM_ok hvout) houtput
  obtain ⟨address, -, hdecode⟩ := bind_eq_ok.mp hdecode
  obtain ⟨text, htext, hdecode⟩ := bind_eq_ok.mp hdecode
  cases hdecode
  rw [hnone shown hshown] at htext
  cases htext
  rfl

/-- For no message does the daemon find a recipient in a payment of the
wallet. -/
theorem extractRecipient_createPayment {c : Crypto} {sha256 : Bytes → Hash256}
    {signHash : Hash256 → Bytes → Vec UInt8} {w : Wallet} {view : ChainView} {p : Payment}
    {tx : Transaction} (h : Wallet.createPayment c sha256 signHash w view p = .ok tx)
    (memoPrefix : Text) {json : TxJson Text} (hread : (txToJson sha256 c tx).decode = .ok json) :
    extractRecipient memoPrefix json.vout = .ok none := by
  refine extractRecipient_none (opReturnText_of_decode hread fun output houtput => ?_)
  obtain ⟨i, hi, rfl⟩ := List.mem_mapIdx.mp houtput
  exact opReturnText_walletScript sha256 i (walletScript_createPayment h _ (List.getElem_mem hi))

/-- The transaction is relayed and the daemon finds the address in it. -/
def MemoArrives (sha256 : Bytes → Hash256) (c : Crypto) (ctx : Mempool.Context) (tx : Transaction)
    (memoPrefix address : Text) : Prop :=
  Mempool.violatesStandardPolicy ctx tx tx.serialize.length = false ∧
    ∃ json, (txToJson sha256 c tx).decode = .ok json ∧
      extractRecipient memoPrefix json.vout = .ok (some address)

theorem memo_never_arrives {c : Crypto} {sha256 : Bytes → Hash256}
    {signHash : Hash256 → Bytes → Vec UInt8} {w : Wallet} {view : ChainView} {p : Payment}
    {tx : Transaction} (h : Wallet.createPayment c sha256 signHash w view p = .ok tx)
    (ctx : Mempool.Context) (memoPrefix address : Text) :
    ¬ MemoArrives sha256 c ctx tx memoPrefix address := by
  rintro ⟨-, json, hread, hextract⟩
  rw [extractRecipient_createPayment h memoPrefix hread] at hextract
  cases hextract

/-! ## A sample -/

/-- Constant digests and signatures. -/
def sampleCrypto : Crypto where
  sha3_512 _ := 7
  verifySignature _ _ _ := true
  pubkeyToAddress data := data
  addressesEqual lhs rhs := lhs = rhs

def sampleSign (_ : Hash256) (_ : Bytes) : Vec UInt8 := ⟨List.replicate 70 0x30, by decide⟩

def samplePayload (b : UInt8) : Payload := ⟨List.replicate 20 b, rfl⟩

def sampleAddress (b : UInt8) : Bytes := base64Encode (samplePayload b).bytes

/-- A wallet with one coin. -/
def sampleWallet : Wallet where
  address := sampleAddress 1
  privkey := [1]
  addresses := [sampleAddress 1]
  privkeys := [[1]]
  pubkeys := [[2]]

def sampleView : ChainView where
  approved := true
  unspent := [(⟨9, 0⟩, ⟨⟨1000000, ⟨sampleAddress 1, by decide⟩⟩, 5, false⟩)]
  active _ := false

/-- The memo of a deposit. -/
def sampleMemo : Text :=
  Text.ofString "EVM:0x00000000000000000000000000000000000000aa"

def samplePayment : Payment where
  toAddress := sampleAddress 2
  amountSats := 100000
  opReturnMsg := Text.encodeUtf8 sampleMemo
  feePerKb := 1000
  selectedInputs := []
  changeAddress := some (sampleAddress 1)

theorem sample_createPayment (sha256 : Bytes → Hash256) :
    ∃ tx, Wallet.createPayment sampleCrypto sha256 sampleSign sampleWallet sampleView samplePayment
      = .ok tx := by
  have hcanonical : ∀ b, canonicalizeAddress sha256 (sampleAddress b) = some (sampleAddress b) :=
    fun b => canonicalizeAddress_base64 sha256 (samplePayload b)
  have hor : ∀ text b, Wallet.canonicalOr sha256 text (sampleAddress b) = .ok (sampleAddress b) := by
    intro text b
    rw [Wallet.canonicalOr, hcanonical]
  have hkey : ∀ b, Wallet.canonical sha256 (sampleAddress b) = .ok (sampleAddress b) := by
    intro b
    rw [Wallet.canonical, hcanonical]
  have hchange : Wallet.changeScript sha256 sampleWallet sampleView (sampleAddress 2)
      (some (sampleAddress 1)) = .ok (sampleAddress 1) := hor "invalid change address format" 1
  have hkeys : sampleWallet.addresses.mapM (Wallet.canonical sha256) = .ok [sampleAddress 1] := by
    rw [sampleWallet, List.mapM_cons, hkey]
    rfl
  refine returns_bind rfl (returns_bind (Wallet.require_true (by decide)) ?_)
  refine returns_bind (hor _ 2) (returns_bind rfl ?_)
  refine returns_bind (Wallet.require_true (by decide)) (returns_bind rfl ?_)
  refine returns_bind (Wallet.require_true (by decide)) ?_
  refine returns_bind ((if_pos (by decide)).trans (bind_eq_ok.mpr ⟨_, hchange,
    bind_eq_ok.mpr ⟨_, rfl, rfl⟩⟩)) ?_
  refine returns_bind ((if_neg (by decide)).trans (bind_eq_ok.mpr ⟨_, rfl, rfl⟩)) ?_
  refine returns_bind hkeys (returns_bind rfl (returns_bind rfl ?_))
  refine returns_bind (hkey 1) ?_
  exact ⟨_, rfl⟩

/-- For the sample's payment the daemon finds nothing. -/
theorem memo_never_arrives_sample : ∃ tx,
    Wallet.createPayment sampleCrypto (fun _ => 0) sampleSign sampleWallet sampleView samplePayment
      = .ok tx ∧ ∀ ctx address, ¬ MemoArrives (fun _ => 0) sampleCrypto ctx tx
        (Text.ofString "EVM:") address := by
  obtain ⟨tx, htx⟩ := sample_createPayment fun _ => 0
  exact ⟨tx, htx, fun ctx address => memo_never_arrives htx ctx (Text.ofString "EVM:") address⟩

/-- A payment with the memo of an address from which the daemon does not read
the address. -/
theorem not_memo_arrives : ¬ ∀ (w : Wallet) (view : ChainView) (p : Payment) (tx : Transaction)
    (memoPrefix address : Text), p.opReturnMsg = Text.encodeUtf8 (memoPrefix ++ address) →
    evmAddressRe address = true →
    Wallet.createPayment sampleCrypto (fun _ => 0) sampleSign w view p = .ok tx →
    ∀ ctx, MemoArrives (fun _ => 0) sampleCrypto ctx tx memoPrefix address := by
  intro hall
  obtain ⟨tx, htx⟩ := sample_createPayment fun _ => 0
  obtain ⟨-, json, hread, hextract⟩ := hall sampleWallet sampleView samplePayment tx
    (Text.ofString "EVM:") (Text.ofString "0x00000000000000000000000000000000000000aa") rfl
    (by decide) htx (Regtest.context ∅)
  rw [extractRecipient_createPayment htx _ hread] at hextract
  cases hextract

end Bridge

end Cryptex
