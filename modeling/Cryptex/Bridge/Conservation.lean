import Cryptex.Bridge.Contract
import Mathlib.Algebra.BigOperators.Group.Finset.Piecewise
import Mathlib.Algebra.BigOperators.Fin
import Mathlib.Algebra.Order.BigOperators.Group.Finset
import Mathlib.Data.Fintype.Basic

/-!
# Conservation of the wrapped token

Every call that does not revert is one of four: it mints, it redeems, it moves
an amount between two accounts, or it leaves amounts, processed deposits and
the nonce alone. Over any sequence of calls by anybody the supply is what was
minted less what was redeemed.
-/

namespace Cryptex

namespace Bridge

instance : Fintype Address :=
  Fintype.ofEquiv (Fin (2 ^ 160)) ⟨BitVec.ofFin, BitVec.toFin, fun _ => rfl, fun _ => rfl⟩

/-! ## Sums of amounts -/

/-- Replacing one term of a sum. -/
theorem sum_update {α : Type} [Fintype α] [DecidableEq α] (f : α → Nat) (i : α) (b : Nat) :
    ∑ a, Function.update f i b a + f i = ∑ a, f a + b := by
  have hsplit := Finset.sum_sdiff (Finset.subset_univ {i}) (f := f)
  rw [Finset.sum_singleton] at hsplit
  rw [Finset.sum_update_of_mem (Finset.mem_univ i), ← hsplit]
  omega

namespace Token

/-- The sum of all balances. -/
def held (t : Token) : Nat := ∑ a, (t.balances a).toNat

theorem balance_le_held (t : Token) (a : Address) : (t.balances a).toNat ≤ t.held :=
  Finset.single_le_sum (f := fun a => (t.balances a).toNat) (fun _ _ => Nat.zero_le _)
    (Finset.mem_univ a)

theorem held_update (t : Token) (a : Address) (b : UInt256) (supply : UInt256) :
    held ⟨Function.update t.balances a b, supply⟩ + (t.balances a).toNat = t.held + b.toNat := by
  have h := sum_update (BitVec.toNat ∘ t.balances) a b.toNat
  rw [← Function.comp_update] at h
  exact h

/-- The balances add up to the supply, below the cap, and are whole units. -/
structure Sound (t : Token) : Prop where
  held : t.held = t.totalSupply.toNat
  cap : t.totalSupply.toNat ≤ nativeSupplyCap
  units : ∀ a, (t.balances a).toNat % bridgeUnit = 0

theorem sound_empty : Sound .empty := by
  refine ⟨?_, Nat.zero_le _, fun _ => rfl⟩
  exact Finset.sum_eq_zero fun _ _ => rfl

theorem toNat_add_of_lt {x y : UInt256} (h : x.toNat + y.toNat < 2 ^ 256) :
    (x + y).toNat = x.toNat + y.toNat := by
  rw [BitVec.toNat_add, Nat.mod_eq_of_lt h]

theorem units_update {f : Address → UInt256} {a : Address} {b : UInt256}
    (hf : ∀ a, (f a).toNat % bridgeUnit = 0) (hb : b.toNat % bridgeUnit = 0) (x : Address) :
    (Function.update f a b x).toNat % bridgeUnit = 0 := by
  rw [Function.update_apply]
  split
  · exact hb
  · exact hf x

variable {t : Token} {src dst : Address} {value : UInt256}

theorem moved_mint (hdst : dst ≠ 0) : t.moved 0 dst value
    = ⟨Function.update t.balances dst (t.balances dst + value), t.totalSupply + value⟩ := by
  rw [moved, if_pos rfl, if_neg hdst]

theorem moved_burn (hsrc : src ≠ 0) : t.moved src 0 value
    = ⟨Function.update t.balances src (t.balances src - value), t.totalSupply - value⟩ := by
  rw [moved, if_neg hsrc, if_pos rfl]

theorem moved_transfer (hsrc : src ≠ 0) (hdst : dst ≠ 0) : t.moved src dst value
    = ⟨Function.update (Function.update t.balances src (t.balances src - value)) dst
        (Function.update t.balances src (t.balances src - value) dst + value), t.totalSupply⟩ := by
  rw [moved, if_neg hsrc, if_neg hdst]

theorem Sound.mint (h : t.Sound) (hdst : dst ≠ 0) (hunit : value.toNat % bridgeUnit = 0)
    (hlt : t.totalSupply.toNat + value.toNat < 2 ^ 256)
    (hcap : (t.moved 0 dst value).totalSupply.toNat ≤ nativeSupplyCap) :
    (t.moved 0 dst value).Sound ∧
      (t.moved 0 dst value).totalSupply.toNat = t.totalSupply.toNat + value.toNat := by
  rw [moved_mint hdst] at hcap ⊢
  have hle := t.balance_le_held dst
  rw [h.held] at hle
  have hbal : (t.balances dst + value).toNat = (t.balances dst).toNat + value.toNat :=
    toNat_add_of_lt (by omega)
  refine ⟨⟨?_, hcap, units_update h.units ?_⟩, toNat_add_of_lt hlt⟩
  · have hheld := t.held_update dst (t.balances dst + value) (t.totalSupply + value)
    rw [hbal, h.held] at hheld
    rw [toNat_add_of_lt hlt]
    omega
  · rw [hbal, Nat.add_mod, h.units dst, hunit, Nat.zero_mod]

theorem toNat_sub_of_le {x y : UInt256} (h : y ≤ x) : (x - y).toNat = x.toNat - y.toNat :=
  BitVec.toNat_sub_of_le h

theorem units_sub {x y : UInt256} (h : y ≤ x) (hx : x.toNat % bridgeUnit = 0)
    (hy : y.toNat % bridgeUnit = 0) : (x - y).toNat % bridgeUnit = 0 := by
  rw [toNat_sub_of_le h]
  exact Nat.mod_eq_zero_of_dvd (Nat.dvd_sub (Nat.dvd_of_mod_eq_zero hx) (Nat.dvd_of_mod_eq_zero hy))

theorem Sound.burn (h : t.Sound) (hsrc : src ≠ 0) (hunit : value.toNat % bridgeUnit = 0)
    (hle : value ≤ t.balances src) : (t.moved src 0 value).Sound ∧
      (t.moved src 0 value).totalSupply.toNat + value.toNat = t.totalSupply.toNat := by
  rw [moved_burn hsrc]
  have hheld := t.balance_le_held src
  rw [h.held] at hheld
  have hle' : value.toNat ≤ (t.balances src).toNat := hle
  have hsupply : (t.totalSupply - value).toNat = t.totalSupply.toNat - value.toNat :=
    toNat_sub_of_le (Nat.le_trans hle' hheld)
  have hcap := h.cap
  refine ⟨⟨?_, ?_, units_update h.units (units_sub hle (h.units src) hunit)⟩, ?_⟩
  · have hsum := t.held_update src (t.balances src - value) (t.totalSupply - value)
    rw [toNat_sub_of_le hle, h.held] at hsum
    rw [hsupply]
    omega
  · show (t.totalSupply - value).toNat ≤ nativeSupplyCap
    omega
  · show (t.totalSupply - value).toNat + value.toNat = _
    omega

theorem Sound.transfer (h : t.Sound) (hsrc : src ≠ 0) (hdst : dst ≠ 0)
    (hunit : value.toNat % bridgeUnit = 0) (hle : value ≤ t.balances src) :
    (t.moved src dst value).Sound ∧ (t.moved src dst value).totalSupply = t.totalSupply := by
  rw [moved_transfer hsrc hdst]
  have hle' : value.toNat ≤ (t.balances src).toNat := hle
  -- the debit first, as a token of its own
  have hdebit := t.held_update src (t.balances src - value) t.totalSupply
  rw [toNat_sub_of_le hle, h.held] at hdebit
  have hunits : ∀ a, (Function.update t.balances src (t.balances src - value) a).toNat % bridgeUnit
      = 0 := units_update h.units (units_sub hle (h.units src) hunit)
  have hsrcHeld := t.balance_le_held src
  rw [h.held] at hsrcHeld
  generalize hmid : (⟨Function.update t.balances src (t.balances src - value), t.totalSupply⟩ : Token)
    = mid at hdebit
  have hbalances : Function.update t.balances src (t.balances src - value) = mid.balances := by
    rw [← hmid]
  rw [hbalances] at hunits ⊢
  have hmidHeld := mid.balance_le_held dst
  have hlt := t.totalSupply.isLt
  have hbal : (mid.balances dst + value).toNat = (mid.balances dst).toNat + value.toNat :=
    toNat_add_of_lt (by omega)
  refine ⟨⟨?_, h.cap, units_update hunits ?_⟩, rfl⟩
  · have hcredit := mid.held_update dst (mid.balances dst + value) t.totalSupply
    rw [hbal] at hcredit
    show Token.held _ = t.totalSupply.toNat
    omega
  · rw [hbal, Nat.add_mod, hunits dst, hunit, Nat.zero_mod]

end Token

/-! ## What a call can do -/

namespace WrappedCryptEX

variable {oz : OpenZeppelin} {evm : Evm} {s s' : WrappedCryptEX oz} {sender : Address}
  {evs evs' : List Event}

/-- The effects of the calls that do not revert. -/
inductive Effect (s s' : WrappedCryptEX oz) : List Event → Prop where
  | minted {depositId nativeTxId : Hash256} {recipient operator : Address} {amount : UInt256}
      {nativeSender : Bytes} : s.paused = false → recipient ≠ 0 →
      amount.toNat % bridgeUnit = 0 → s.processedDeposits depositId = false →
      s.token.totalSupply.toNat + amount.toNat < 2 ^ 256 →
      s'.token = s.token.moved 0 recipient amount →
      s'.token.totalSupply.toNat ≤ nativeSupplyCap →
      s'.processedDeposits = Function.update s.processedDeposits depositId true →
      s'.redemptionNonce = s.redemptionNonce →
      Effect s s' [.bridgeMintRecorded depositId nativeTxId recipient amount nativeSender operator]
  | redeemed {redemptionId : Hash256} {account operator : Address} {amount : UInt256}
      {nativeDestination : Bytes} : s.paused = false → account ≠ 0 →
      amount.toNat % bridgeUnit = 0 → amount ≤ s.token.balances account →
      s'.token = s.token.moved account 0 amount →
      s'.processedDeposits = s.processedDeposits →
      s'.redemptionNonce.toNat = s.redemptionNonce.toNat + 1 →
      Effect s s' [.redemptionRequested redemptionId account operator nativeDestination amount
        s'.redemptionNonce]
  | transferred {src dst : Address} {value : UInt256} : s.paused = false → src ≠ 0 → dst ≠ 0 →
      value.toNat % bridgeUnit = 0 → value ≤ s.token.balances src →
      s'.token = s.token.moved src dst value → s'.processedDeposits = s.processedDeposits →
      s'.redemptionNonce = s.redemptionNonce → Effect s s' []
  | other : s'.token = s.token → s'.processedDeposits = s.processedDeposits →
      s'.redemptionNonce = s.redemptionNonce → Effect s s' []

/-- What the overriding `_update` lets through. -/
theorem update_some (hoz : oz.Documented) {t t' : Token} {src dst : Address} {value : UInt256}
    (h : s.update t src dst value = some t') : s.paused = false ∧ value.toNat % bridgeUnit = 0 ∧
      (src = 0 → t.totalSupply.toNat + value.toNat < 2 ^ 256 ∧
        t'.totalSupply.toNat ≤ nativeSupplyCap) ∧
      (src ≠ 0 → value ≤ t.balances src) ∧ t' = t.moved src dst value := by
  rw [update] at h
  split at h
  · cases h
  · next hunit =>
      obtain ⟨hcapped, hpaused⟩ := hoz.pausableUpdate h
      obtain ⟨herc20, hcap⟩ := hoz.cappedUpdate hcapped
      obtain ⟨hlt, hle, hmoved⟩ := hoz.erc20Update herc20
      refine ⟨hpaused, ?_, fun hsrc => ⟨hlt hsrc, hcap hsrc⟩, hle, hmoved⟩
      by_cases hzero : value = 0
      · rw [hzero]
        rfl
      · by_contra hmod
        exact hunit ⟨hzero, hmod⟩

theorem mintFromBridge_effect (hoz : oz.Documented) {recipient : Address} {amount : UInt256}
    {depositId nativeTxId : Hash256} {nativeSender : Bytes}
    (h : mintFromBridge evm s sender recipient amount depositId nativeTxId nativeSender
      = some (s', evs)) : Effect s s' evs := by
  unfold mintFromBridge at h
  repeat' split at h
  all_goals try cases h
  next hprocessed =>
    obtain ⟨t, hmint, heq⟩ := Option.map_eq_some_iff.mp h
    cases heq
    obtain ⟨hrecipient, hupdate⟩ := hoz.mint hmint
    obtain ⟨hpaused, hunit, hsrc, -, hmoved⟩ := update_some hoz hupdate
    obtain ⟨hlt, hcap⟩ := hsrc rfl
    exact .minted hpaused hrecipient hunit (by simpa using hprocessed) hlt hmoved hcap rfl rfl

theorem redeem_effect (hoz : oz.Documented) {account operator : Address} {amount : UInt256}
    {nativeDestination : Bytes}
    (h : redeem evm s account operator amount nativeDestination = some (s', evs)) :
    Effect s s' evs := by
  unfold redeem at h
  split at h
  · cases h
  · split at h
    · cases h
    · split at h
      · cases h
      · next hnonce =>
          split at h
          · cases h
          · obtain ⟨t, hburn, heq⟩ := Option.map_eq_some_iff.mp h
            cases heq
            obtain ⟨haccount, hupdate⟩ := hoz.burn hburn
            obtain ⟨hpaused, hunit, -, hle, hmoved⟩ := update_some hoz hupdate
            refine .redeemed hpaused haccount hunit (hle haccount) hmoved rfl ?_
            exact Token.toNat_add_of_lt (Nat.lt_of_not_ge hnonce)

theorem transfer_effect (hoz : oz.Documented) {src dst : Address} {value : UInt256} {t : Token}
    (h : oz.transfer s.update s.token src dst value = some t) (htoken : s'.token = t)
    (hprocessed : s'.processedDeposits = s.processedDeposits)
    (hnonce : s'.redemptionNonce = s.redemptionNonce) : Effect s s' [] := by
  obtain ⟨hsrc, hdst, hupdate⟩ := hoz.transfer h
  obtain ⟨hpaused, hunit, -, hle, hmoved⟩ := update_some hoz hupdate
  exact .transferred hpaused hsrc hdst hunit (hle hsrc) (htoken.trans hmoved) hprocessed hnonce

theorem call_effect (hoz : oz.Documented) {c : Call oz}
    (h : s.call evm sender c = some (s', evs)) : Effect s s' evs := by
  cases c with
  | mintFromBridge recipient amount depositId nativeTxId nativeSender =>
      exact mintFromBridge_effect hoz h
  | requestRedemption amount nativeDestination =>
      rw [call] at h
      split at h
      · cases h
      · exact redeem_effect hoz h
  | requestRedemptionFrom account amount nativeDestination =>
      rw [call] at h
      split at h
      · cases h
      · split at h
        · cases h
        · cases redeem_effect hoz h with
          | redeemed hpaused haccount hunit hle htoken hprocessed hnonce =>
              exact .redeemed hpaused haccount hunit hle htoken hprocessed hnonce
          | minted hpaused hrecipient hunit hfree hlt htoken hcap hprocessed hnonce =>
              exact .minted hpaused hrecipient hunit hfree hlt htoken hcap hprocessed hnonce
          | transferred hpaused hsrc hdst hunit hle htoken hprocessed hnonce =>
              exact .transferred hpaused hsrc hdst hunit hle htoken hprocessed hnonce
          | other htoken hprocessed hnonce => exact .other htoken hprocessed hnonce
  | transfer recipient value =>
      obtain ⟨t, htransfer, heq⟩ := Option.map_eq_some_iff.mp h
      cases heq
      exact transfer_effect hoz htransfer rfl rfl rfl
  | transferFrom src dst value =>
      rw [call] at h
      split at h
      · cases h
      · obtain ⟨t, htransfer, heq⟩ := Option.map_eq_some_iff.mp h
        cases heq
        exact transfer_effect hoz htransfer rfl rfl rfl
  | allowance c =>
      obtain ⟨allowances, -, heq⟩ := Option.map_eq_some_iff.mp h
      cases heq
      exact .other rfl rfl rfl
  | access c =>
      obtain ⟨access, -, heq⟩ := Option.map_eq_some_iff.mp h
      cases heq
      exact .other rfl rfl rfl
  | pause =>
      rw [call] at h
      split at h
      · cases h
      · obtain ⟨paused, -, heq⟩ := Option.map_eq_some_iff.mp h
        cases heq
        exact .other rfl rfl rfl
  | unpause =>
      rw [call] at h
      split at h
      · cases h
      · obtain ⟨paused, -, heq⟩ := Option.map_eq_some_iff.mp h
        cases heq
        exact .other rfl rfl rfl
  | rescueERC20 token recipient amount =>
      rw [call] at h
      split at h
      · cases h
      · split at h
        · cases h
        · split at h
          · cases h
          · cases h
            exact .other rfl rfl rfl

/-! ## All sequences of calls -/

/-- The states that calls by anybody lead to, with the events so far. -/
inductive Reachable (oz : OpenZeppelin) (evm : Evm) : WrappedCryptEX oz → List Event → Prop where
  | deployed {s : WrappedCryptEX oz} {tokenName tokenSymbol : Bytes}
      {initialAdmin initialMinter initialPauser : Address} :
      deploy oz evm tokenName tokenSymbol initialAdmin initialMinter initialPauser = some s →
      Reachable oz evm s []
  | called {s : WrappedCryptEX oz} {evs : List Event} (sender : Address) (c : Call oz) :
      Reachable oz evm s evs →
      Reachable oz evm (s.after evm sender c).1 (evs ++ (s.after evm sender c).2)

/-- The deposits that were minted. -/
def depositIds (evs : List Event) : List Hash256 := evs.filterMap fun
  | .bridgeMintRecorded depositId _ _ _ _ _ => some depositId
  | .redemptionRequested .. => none

/-- The sum of the amounts minted. -/
def minted (evs : List Event) : Nat := (evs.map fun
  | .bridgeMintRecorded _ _ _ amount _ _ => amount.toNat
  | .redemptionRequested .. => 0).sum

/-- The nonces of the redemptions. -/
def nonces (evs : List Event) : List UInt256 := evs.filterMap fun
  | .bridgeMintRecorded .. => none
  | .redemptionRequested _ _ _ _ _ nonce => some nonce

/-- The sum of the amounts redeemed. -/
def redeemed (evs : List Event) : Nat := (evs.map fun
  | .bridgeMintRecorded .. => 0
  | .redemptionRequested _ _ _ _ amount _ => amount.toNat).sum

@[simp] theorem depositIds_append : depositIds (evs ++ evs') = depositIds evs ++ depositIds evs' :=
  List.filterMap_append

@[simp] theorem nonces_append : nonces (evs ++ evs') = nonces evs ++ nonces evs' :=
  List.filterMap_append

@[simp] theorem minted_append : minted (evs ++ evs') = minted evs + minted evs' := by
  rw [minted, List.map_append, List.sum_append]
  rfl

@[simp] theorem redeemed_append : redeemed (evs ++ evs') = redeemed evs + redeemed evs' := by
  rw [redeemed, List.map_append, List.sum_append]
  rfl

/-- What holds between a state and the events that led to it. -/
structure Conserved (s : WrappedCryptEX oz) (evs : List Event) : Prop where
  sound : s.token.Sound
  supply : s.token.totalSupply.toNat + redeemed evs = minted evs
  deposits : (depositIds evs).Nodup
  processed : ∀ id, s.processedDeposits id = true ↔ id ∈ depositIds evs
  nonces : (nonces evs).Nodup
  nonceLe : ∀ n ∈ WrappedCryptEX.nonces evs, n.toNat ≤ s.redemptionNonce.toNat

/-- What holds of one call: it changes nothing when it reverts or while the
token is paused, and a redemption burns what it announces. -/
structure Guarded (evm : Evm) (s : WrappedCryptEX oz) (sender : Address) (c : Call oz) : Prop where
  reverted : s.call evm sender c = none → s.after evm sender c = (s, [])
  paused : s.paused = true → (s.after evm sender c).1.token = s.token ∧
    (s.after evm sender c).1.processedDeposits = s.processedDeposits ∧
    (s.after evm sender c).1.redemptionNonce = s.redemptionNonce
  burned : ∀ redemptionId account operator nativeDestination amount nonce,
    .redemptionRequested redemptionId account operator nativeDestination amount nonce
        ∈ (s.after evm sender c).2 →
      amount ≤ s.token.balances account ∧ (s.after evm sender c).1.token.balances
        = Function.update s.token.balances account (s.token.balances account - amount) ∧
      (s.after evm sender c).1.token.totalSupply.toNat + amount.toNat = s.token.totalSupply.toNat

/-- A call either reverts or has an effect. -/
theorem after_cases (evm : Evm) (hoz : oz.Documented) (s : WrappedCryptEX oz) (sender : Address) (c : Call oz) :
    s.after evm sender c = (s, []) ∨
      Effect s (s.after evm sender c).1 (s.after evm sender c).2 := by
  cases hcall : s.call evm sender c with
  | none => exact Or.inl (by rw [after, hcall]; rfl)
  | some r =>
      rw [after, hcall]
      exact Or.inr (call_effect hoz hcall)

theorem Conserved.effect (h : Conserved s evs) (heff : Effect s s' evs') :
    Conserved s' (evs ++ evs') := by
  obtain ⟨hsound, hsupply, hdeposits, hprocessed, hnonces, hle⟩ := h
  cases heff with
  | @minted depositId nativeTxId recipient operator amount nativeSender hpaused hrecipient hunit
      hfree hlt htoken hcap hproc hnonce =>
      have hnew : depositId ∉ depositIds evs := by
        rw [← hprocessed, hfree]
        exact Bool.false_ne_true
      obtain ⟨hsound', hsupply'⟩ := hsound.mint hrecipient hunit hlt (htoken ▸ hcap)
      rw [← htoken] at hsound' hsupply'
      refine ⟨hsound', ?_, ?_, fun id => ?_, ?_, ?_⟩
      · simp [minted, redeemed] at hsupply ⊢
        omega
      · rw [depositIds_append]
        exact List.nodup_append'.mpr ⟨hdeposits, List.nodup_singleton _,
          List.disjoint_singleton.mpr hnew⟩
      · rw [hproc, depositIds_append, List.mem_append, ← hprocessed, Function.update_apply]
        by_cases hid : id = depositId
        · simp [hid, depositIds]
        · simp [hid, depositIds]
      · simpa [WrappedCryptEX.nonces] using hnonces
      · rw [hnonce]
        simpa [WrappedCryptEX.nonces] using hle
  | @redeemed redemptionId account operator amount nativeDestination hpaused haccount hunit hbal
      htoken hproc hnonce =>
      obtain ⟨hsound', hsupply'⟩ := hsound.burn haccount hunit hbal
      rw [← htoken] at hsound' hsupply'
      have hfresh : s'.redemptionNonce ∉ WrappedCryptEX.nonces evs := by
        intro hmem
        have := hle _ hmem
        omega
      refine ⟨hsound', ?_, ?_, fun id => ?_, ?_, ?_⟩
      · simp [minted, redeemed] at hsupply ⊢
        omega
      · simpa [depositIds] using hdeposits
      · rw [hproc, hprocessed]
        simp [depositIds]
      · rw [nonces_append]
        exact List.nodup_append'.mpr ⟨hnonces, List.nodup_singleton _,
          List.disjoint_singleton.mpr hfresh⟩
      · intro n hn
        rw [nonces_append, List.mem_append] at hn
        rcases hn with hn | hn
        · have := hle n hn
          omega
        · obtain rfl : n = s'.redemptionNonce := by simpa [WrappedCryptEX.nonces] using hn
          exact Nat.le_refl _
  | transferred hpaused hsrc hdst hunit hbal htoken hproc hnonce =>
      obtain ⟨hsound', hsupply'⟩ := hsound.transfer hsrc hdst hunit hbal
      rw [← htoken] at hsound' hsupply'
      rw [List.append_nil]
      exact ⟨hsound', by rw [hsupply', hsupply], hdeposits, by rw [hproc]; exact hprocessed, hnonces,
        by rw [hnonce]; exact hle⟩
  | other htoken hproc hnonce =>
      rw [List.append_nil]
      exact ⟨htoken ▸ hsound, by rw [htoken, hsupply], hdeposits, by rw [hproc]; exact hprocessed,
        hnonces, by rw [hnonce]; exact hle⟩

theorem guarded (hoz : oz.Documented) (hsound : s.token.Sound) (sender : Address) (c : Call oz) :
    Guarded evm s sender c := by
  refine ⟨fun h => by rw [after, h]; rfl, fun hpaused => ?_, ?_⟩
  · rcases after_cases evm hoz s sender c with hsame | heff
    · rw [hsame]
      exact ⟨rfl, rfl, rfl⟩
    · generalize s.after evm sender c = r at heff
      obtain ⟨s', evs'⟩ := r
      simp only at heff
      cases heff with
      | minted hfree => simp [hfree] at hpaused
      | redeemed hfree => simp [hfree] at hpaused
      | transferred hfree => simp [hfree] at hpaused
      | other htoken hproc hnonce => exact ⟨htoken, hproc, hnonce⟩
  · intro redemptionId account operator nativeDestination amount nonce hmem
    rcases after_cases evm hoz s sender c with hsame | heff
    · rw [hsame] at hmem
      cases hmem
    · generalize s.after evm sender c = r at heff hmem
      obtain ⟨s', evs'⟩ := r
      simp only at heff hmem
      cases heff with
      | minted => simp at hmem
      | redeemed hpaused haccount hunit hbal htoken =>
          obtain ⟨rfl, rfl, rfl, rfl, rfl, rfl⟩ := Event.redemptionRequested.inj
            (List.mem_singleton.mp hmem)
          refine ⟨hbal, ?_, ?_⟩
          · rw [htoken, Token.moved_burn haccount]
          · rw [htoken]
            exact (hsound.burn haccount hunit hbal).2
      | transferred => cases hmem
      | other => cases hmem

theorem deploy_conserved {tokenName tokenSymbol : Bytes}
    {initialAdmin initialMinter initialPauser : Address}
    (h : deploy oz evm tokenName tokenSymbol initialAdmin initialMinter initialPauser = some s) :
    Conserved s [] := by
  unfold deploy at h
  split at h
  · cases h
  · split at h
    · cases h
    · cases h
      exact ⟨Token.sound_empty, rfl, List.nodup_nil, by simp [depositIds], List.nodup_nil,
        by simp [WrappedCryptEX.nonces]⟩

/-- Conservation, in every state that any calls lead to. -/
theorem Reachable.conserved (hoz : oz.Documented) (h : Reachable oz evm s evs) :
    Conserved s evs ∧ ∀ sender c, Guarded evm s sender c := by
  suffices hc : Conserved s evs from ⟨hc, guarded hoz hc.sound⟩
  induction h with
  | deployed h => exact deploy_conserved h
  | @called s evs sender c _ ih =>
      rcases after_cases evm hoz s sender c with hsame | heff
      · rw [hsame, List.append_nil]
        exact ih
      · exact ih.effect heff

/-! ## A sample -/

/-- Keccak-256 of the roles and of the one redemption of the sample. -/
def sampleEvm : Evm where
  keccak256 data :=
    if data = ascii "MINTER_ROLE" then
      0x9f2df0fed2c77648de5860a4cc508cd0818c85b8b8a1ab4ceeef8d981c8956a6
    else if data = ascii "PAUSER_ROLE" then
      0x65d7a28e3265b37a6474929f336521b332c1681b933f6cb9f3376673440d862a
    else 0x30f0a6951b2d1bd8a0429d380a9512adc9a6ecdcbd9ae9b2d498235cffab29ed
  chainId := 1
  this := 0x77

/-- Several calls in turn. -/
def runCalls (evm : Evm) : WrappedCryptEX oz × List Event → List (Address × Call oz) →
    WrappedCryptEX oz × List Event
  | r, [] => r
  | (s, evs), (sender, c) :: rest =>
      runCalls evm ((s.after evm sender c).1, evs ++ (s.after evm sender c).2) rest

theorem Reachable.runCalls : ∀ {calls : List (Address × Call oz)} {s : WrappedCryptEX oz}
    {evs : List Event}, Reachable oz evm s evs →
    Reachable oz evm (runCalls evm (s, evs) calls).1 (runCalls evm (s, evs) calls).2
  | [], _, _, h => h
  | (sender, c) :: _, _, _, h => (h.called sender c).runCalls

/-- Three units are minted, a second mint of the deposit reverts, one unit is
transferred and two are redeemed. -/
def sampleCalls : List (Address × Call .plain) :=
  [(2, .mintFromBridge 5 30000000000 7 8 []), (2, .mintFromBridge 6 30000000000 7 8 []),
    (5, .transfer 6 10000000000), (5, .requestRedemption 20000000000 (ascii "crx1dest"))]

theorem conserved_sample : ∃ s evs, Reachable .plain sampleEvm s evs ∧
    minted evs = 30000000000 ∧ redeemed evs = 20000000000 ∧
    Conserved s evs ∧ ∀ sender c, Guarded sampleEvm s sender c := by
  have hrun : ((deploy .plain sampleEvm (ascii "Wrapped CryptEX") (ascii "wCRX") 1 2 3).map fun s =>
      let evs := (runCalls sampleEvm (s, []) sampleCalls).2
      (minted evs, redeemed evs)) = some (30000000000, 20000000000) := by decide
  obtain ⟨s, hs, hsums⟩ := Option.map_eq_some_iff.mp hrun
  have hreach := @Reachable.runCalls _ _ sampleCalls s [] (.deployed hs)
  obtain ⟨hminted, hredeemed⟩ := Prod.mk.inj hsums
  exact ⟨_, _, hreach, hminted, hredeemed,
    Reachable.conserved OpenZeppelin.documented_plain hreach⟩

end WrappedCryptEX

end Bridge

end Cryptex
