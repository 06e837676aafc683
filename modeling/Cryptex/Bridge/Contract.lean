import Cryptex.Types
import Mathlib.Logic.Function.Basic

/-!
# The wrapped token

`WrappedCryptEX.sol`. Every external call takes the state and the caller to a
new state and the events it emits, or reverts. The OpenZeppelin contracts that
the token extends are the parameter `OpenZeppelin`, of which `Documented` says
what the token relies on; roles, allowances and permits may be anything.
`Bridge.Vendored` has the contracts themselves.
-/

namespace Cryptex

namespace Bridge

abbrev Address := BitVec 160

abbrev UInt256 := BitVec 256

/-- The bytes of an ASCII string. -/
def ascii (s : String) : Bytes := s.toList.map fun ch => UInt8.ofNat ch.toNat

/-! ## ABI encoding -/

/-- A value of a static type in one word, or a `string`. -/
inductive AbiValue where
  | word (w : UInt256)
  | string (s : Bytes)

namespace AbiValue

/-- The bytes that fill up the last word of a string. -/
def padding (s : Bytes) : Bytes := List.replicate ((32 - s.length % 32) % 32) 0

def tail : AbiValue → Bytes
  | word _ => []
  | string s => toPaddedBytes 32 s.length ++ s ++ padding s

/-- The word in the head: the value, or where its tail starts. -/
def head (offset : Nat) : AbiValue → Bytes
  | word w => Hash256.toBytes w
  | string _ => toPaddedBytes 32 offset

end AbiValue

/-- The heads of the arguments, the tails beginning at `offset`. -/
def abiHeads : Nat → List AbiValue → Bytes
  | _, [] => []
  | offset, v :: rest => v.head offset ++ abiHeads (offset + v.tail.length) rest

/-- `abi.encode`. -/
def abiEncode (args : List AbiValue) : Bytes :=
  abiHeads (32 * args.length) args ++ args.flatMap AbiValue.tail

/-- An address in a word. -/
def addressWord (a : Address) : AbiValue := .word (a.setWidth 256)

/-! ## What the token inherits -/

/-- The storage of `ERC20` that holds amounts. -/
structure Token where
  balances : Address → UInt256
  totalSupply : UInt256

namespace Token

def empty : Token := ⟨fun _ => 0, 0⟩

/-- `ERC20._update` when it does not revert: the zero address stands for
minting and burning. -/
def moved (t : Token) (src dst : Address) (value : UInt256) : Token :=
  let t' : Token :=
    if src = 0 then { t with totalSupply := t.totalSupply + value }
    else { t with balances := Function.update t.balances src (t.balances src - value) }
  if dst = 0 then { t' with totalSupply := t'.totalSupply - value }
  else { t' with balances := Function.update t'.balances dst (t'.balances dst + value) }

end Token

/-- An implementation of `_update`. -/
abbrev Update := Token → Address → Address → UInt256 → Option Token

/-- The OpenZeppelin contracts. `Access` and `Allowances` are the storage of
`AccessControlDefaultAdminRules` and of allowances and permits, with their own
external calls. -/
structure OpenZeppelin where
  Access : Type
  AccessCall : Type
  initialAccess : Nat → Address → Option Access
  hasRole : Access → Hash256 → Address → Bool
  grantRole : Access → Hash256 → Address → Access
  accessCall : Access → Address → AccessCall → Option Access
  Allowances : Type
  AllowanceCall : Type
  initialAllowances : Allowances
  spendAllowance : Allowances → Address → Address → UInt256 → Option Allowances
  allowanceCall : Allowances → Address → AllowanceCall → Option Allowances
  pause : Bool → Option Bool
  unpause : Bool → Option Bool
  erc20Update : Update
  cappedUpdate : Nat → Update → Update
  pausableUpdate : Bool → Update → Update
  mint : Update → Token → Address → UInt256 → Option Token
  burn : Update → Token → Address → UInt256 → Option Token
  transfer : Update → Token → Address → Address → UInt256 → Option Token

/-- The documented behaviour of `ERC20`, `ERC20Capped` and `ERC20Pausable`. -/
structure OpenZeppelin.Documented (oz : OpenZeppelin) : Prop where
  erc20Update : ∀ {t src dst value t'}, oz.erc20Update t src dst value = some t' →
    (src = 0 → t.totalSupply.toNat + value.toNat < 2 ^ 256) ∧
      (src ≠ 0 → value ≤ t.balances src) ∧ t' = t.moved src dst value
  cappedUpdate : ∀ {cap super t src dst value t'},
    oz.cappedUpdate cap super t src dst value = some t' →
    super t src dst value = some t' ∧ (src = 0 → t'.totalSupply.toNat ≤ cap)
  pausableUpdate : ∀ {paused super t src dst value t'},
    oz.pausableUpdate paused super t src dst value = some t' →
    super t src dst value = some t' ∧ paused = false
  mint : ∀ {update t account value t'}, oz.mint update t account value = some t' →
    account ≠ 0 ∧ update t 0 account value = some t'
  burn : ∀ {update t account value t'}, oz.burn update t account value = some t' →
    account ≠ 0 ∧ update t account 0 value = some t'
  transfer : ∀ {update t src dst value t'}, oz.transfer update t src dst value = some t' →
    src ≠ 0 ∧ dst ≠ 0 ∧ update t src dst value = some t'

/-- The three contracts as documented, with roles as a list and allowances as
a map. -/
def OpenZeppelin.plain : OpenZeppelin where
  Access := List (Hash256 × Address)
  AccessCall := Hash256 × Address
  initialAccess _ admin := if admin = 0 then none else some [(0, admin)]
  hasRole roles role account := roles.contains (role, account)
  grantRole roles role account := (role, account) :: roles
  accessCall roles sender c := if roles.contains (0, sender) then some (c :: roles) else none
  Allowances := Address → Address → UInt256
  AllowanceCall := Address × UInt256
  initialAllowances _ _ := 0
  spendAllowance allowances owner spender value :=
    let current := allowances owner spender
    if current = BitVec.allOnes 256 then some allowances
    else if current < value then none
    else some (Function.update allowances owner
      (Function.update (allowances owner) spender (current - value)))
  allowanceCall allowances sender c :=
    some (Function.update allowances sender (Function.update (allowances sender) c.1 c.2))
  pause paused := if paused then none else some true
  unpause paused := if paused then some false else none
  erc20Update t src dst value :=
    if src = 0 ∧ 2 ^ 256 ≤ t.totalSupply.toNat + value.toNat then none
    else if src ≠ 0 ∧ t.balances src < value then none
    else some (t.moved src dst value)
  cappedUpdate cap super t src dst value :=
    (super t src dst value).bind fun t' =>
      if src = 0 ∧ cap < t'.totalSupply.toNat then none else some t'
  pausableUpdate paused super t src dst value := if paused then none else super t src dst value
  mint update t account value := if account = 0 then none else update t 0 account value
  burn update t account value := if account = 0 then none else update t account 0 value
  transfer update t src dst value :=
    if src = 0 then none else if dst = 0 then none else update t src dst value

theorem OpenZeppelin.documented_plain : OpenZeppelin.plain.Documented where
  erc20Update {t src dst value t'} h := by
    simp only [plain] at h
    split at h
    · cases h
    · next hlt =>
        split at h
        · cases h
        · next hle =>
            cases h
            refine ⟨fun hsrc => ?_, fun hsrc => ?_, rfl⟩
            · exact Nat.lt_of_not_le fun hover => hlt ⟨hsrc, hover⟩
            · exact BitVec.not_lt.mp fun hless => hle ⟨hsrc, hless⟩
  cappedUpdate {cap super t src dst value t'} h := by
    obtain ⟨mid, hsuper, hcap⟩ := Option.bind_eq_some_iff.mp h
    split at hcap
    · cases hcap
    · next hle =>
        cases hcap
        exact ⟨hsuper, fun hsrc => Nat.le_of_not_lt fun hover => hle ⟨hsrc, hover⟩⟩
  pausableUpdate {paused super t src dst value t'} h := by
    cases paused with
    | true => cases h
    | false => exact ⟨h, rfl⟩
  mint {update t account value t'} h := by
    simp only [plain] at h
    split at h
    · cases h
    · next haccount => exact ⟨haccount, h⟩
  burn {update t account value t'} h := by
    simp only [plain] at h
    split at h
    · cases h
    · next haccount => exact ⟨haccount, h⟩
  transfer {update t src dst value t'} h := by
    simp only [plain] at h
    split at h
    · cases h
    · next hsrc =>
        split at h
        · cases h
        · next hdst => exact ⟨hsrc, hdst, h⟩

/-! ## The token -/

/-- 1_000_000_000 ether. -/
def nativeSupplyCap : Nat := 1000000000 * 10 ^ 18

def bridgeUnit : Nat := 10000000000

def maxNativeReferenceLength : Nat := 128

/-- 2 days. -/
def defaultAdminTransferDelay : Nat := 172800

/-- What a call finds around the contract. -/
structure Evm where
  keccak256 : Bytes → Hash256
  chainId : UInt256
  this : Address

def minterRole (evm : Evm) : Hash256 := evm.keccak256 (ascii "MINTER_ROLE")

def pauserRole (evm : Evm) : Hash256 := evm.keccak256 (ascii "PAUSER_ROLE")

/-- `DEFAULT_ADMIN_ROLE` of `AccessControl`. -/
def defaultAdminRole : Hash256 := 0

inductive Event where
  | bridgeMintRecorded (depositId nativeTxId : Hash256) (recipient : Address) (amount : UInt256)
      (nativeSender : Bytes) (operator : Address)
  | redemptionRequested (redemptionId : Hash256) (account operator : Address)
      (nativeDestination : Bytes) (amount nonce : UInt256)
deriving DecidableEq

structure WrappedCryptEX (oz : OpenZeppelin) where
  token : Token
  allowances : oz.Allowances
  access : oz.Access
  paused : Bool
  processedDeposits : Hash256 → Bool
  redemptionNonce : UInt256

namespace WrappedCryptEX

variable {oz : OpenZeppelin}

/-- The constructor. -/
def deploy (oz : OpenZeppelin) (evm : Evm) (tokenName tokenSymbol : Bytes)
    (initialAdmin initialMinter initialPauser : Address) : Option (WrappedCryptEX oz) :=
  match oz.initialAccess defaultAdminTransferDelay initialAdmin with
  | none => none
  | some access =>
      if tokenName.length = 0 ∨ tokenSymbol.length = 0 then none
      else
        let access := oz.grantRole access (pauserRole evm) initialAdmin
        let access :=
          if initialMinter ≠ 0 then oz.grantRole access (minterRole evm) initialMinter else access
        let access :=
          if initialPauser ≠ 0 ∧ initialPauser ≠ initialAdmin then
            oz.grantRole access (pauserRole evm) initialPauser
          else access
        some
          { token := .empty
            allowances := oz.initialAllowances
            access := access
            paused := false
            processedDeposits := fun _ => false
            redemptionNonce := 0 }

/-- `_update`: the unit, then `ERC20Pausable`, `ERC20Capped` and `ERC20`, in
the order of the inheritance. -/
def update (s : WrappedCryptEX oz) : Update := fun t src dst value =>
  if value ≠ 0 ∧ value.toNat % bridgeUnit ≠ 0 then none
  else
    oz.pausableUpdate s.paused (oz.cappedUpdate nativeSupplyCap oz.erc20Update) t src dst value

/-- `_validateReference`. -/
def validateReference (value : Bytes) (allowEmpty : Bool) : Bool :=
  if !allowEmpty && value.length = 0 then false
  else if value.length > maxNativeReferenceLength then false
  else true

/-- The id under which a redemption is announced. -/
def redemptionId (evm : Evm) (account operator : Address) (amount nonce : UInt256)
    (nativeDestination : Bytes) : Hash256 :=
  evm.keccak256 (abiEncode [.word evm.chainId, addressWord evm.this, addressWord account,
    addressWord operator, .word amount, .word nonce, .string nativeDestination])

/-- `mintFromBridge`. -/
def mintFromBridge (evm : Evm) (s : WrappedCryptEX oz) (sender recipient : Address)
    (amount : UInt256) (depositId nativeTxId : Hash256) (nativeSender : Bytes) :
    Option (WrappedCryptEX oz × List Event) :=
  if !oz.hasRole s.access (minterRole evm) sender then none
  else if s.paused then none
  else if recipient = 0 then none
  else if amount = 0 then none
  else if amount.toNat % bridgeUnit ≠ 0 then none
  else if depositId = 0 then none
  else if nativeTxId = 0 then none
  else if !validateReference nativeSender true then none
  else if s.processedDeposits depositId then none
  else
    let s := { s with processedDeposits := Function.update s.processedDeposits depositId true }
    (oz.mint s.update s.token recipient amount).map fun token =>
      ({ s with token := token },
        [.bridgeMintRecorded depositId nativeTxId recipient amount nativeSender sender])

/-- `_requestRedemption`. -/
def redeem (evm : Evm) (s : WrappedCryptEX oz) (account operator : Address) (amount : UInt256)
    (nativeDestination : Bytes) : Option (WrappedCryptEX oz × List Event) :=
  if amount = 0 then none
  else if amount.toNat % bridgeUnit ≠ 0 then none
  -- the addition is checked
  else if s.redemptionNonce.toNat + 1 ≥ 2 ^ 256 then none
  else
    let nextNonce := s.redemptionNonce + 1
    let s := { s with redemptionNonce := nextNonce }
    if !validateReference nativeDestination false then none
    else
      (oz.burn s.update s.token account amount).map fun token =>
        ({ s with token := token },
          [.redemptionRequested (redemptionId evm account operator amount nextNonce
            nativeDestination) account operator nativeDestination amount nextNonce])

/-- The external calls that change the state. -/
inductive Call (oz : OpenZeppelin) where
  | mintFromBridge (recipient : Address) (amount : UInt256) (depositId nativeTxId : Hash256)
      (nativeSender : Bytes)
  | requestRedemption (amount : UInt256) (nativeDestination : Bytes)
  | requestRedemptionFrom (account : Address) (amount : UInt256) (nativeDestination : Bytes)
  | transfer (recipient : Address) (value : UInt256)
  | transferFrom (src dst : Address) (value : UInt256)
  | allowance (call : oz.AllowanceCall)
  | access (call : oz.AccessCall)
  | pause
  | unpause
  | rescueERC20 (token recipient : Address) (amount : UInt256)

/-- One call; `none` when it reverts. What `rescueERC20` makes another token do
is not part of this state, and calls that come back are calls of their own. -/
def call (evm : Evm) (s : WrappedCryptEX oz) (sender : Address) :
    Call oz → Option (WrappedCryptEX oz × List Event)
  | .mintFromBridge recipient amount depositId nativeTxId nativeSender =>
      mintFromBridge evm s sender recipient amount depositId nativeTxId nativeSender
  | .requestRedemption amount nativeDestination =>
      if s.paused then none else redeem evm s sender sender amount nativeDestination
  | .requestRedemptionFrom account amount nativeDestination =>
      if s.paused then none
      else
        match oz.spendAllowance s.allowances account sender amount with
        | none => none
        | some allowances =>
            redeem evm { s with allowances := allowances } account sender amount nativeDestination
  | .transfer recipient value =>
      (oz.transfer s.update s.token sender recipient value).map fun token =>
        ({ s with token := token }, [])
  | .transferFrom src dst value =>
      match oz.spendAllowance s.allowances src sender value with
      | none => none
      | some allowances =>
          (oz.transfer s.update s.token src dst value).map fun token =>
            ({ s with token := token, allowances := allowances }, [])
  | .allowance c =>
      (oz.allowanceCall s.allowances sender c).map fun allowances =>
        ({ s with allowances := allowances }, [])
  | .access c => (oz.accessCall s.access sender c).map fun access => ({ s with access := access }, [])
  | .pause =>
      if !oz.hasRole s.access (pauserRole evm) sender then none
      else (oz.pause s.paused).map fun paused => ({ s with paused := paused }, [])
  | .unpause =>
      if !oz.hasRole s.access (pauserRole evm) sender then none
      else (oz.unpause s.paused).map fun paused => ({ s with paused := paused }, [])
  | .rescueERC20 token recipient _ =>
      if !oz.hasRole s.access defaultAdminRole sender then none
      else if token = evm.this then none
      else if recipient = 0 then none
      else some (s, [])

/-- The state after a call, whether it reverted or not. -/
def after (evm : Evm) (s : WrappedCryptEX oz) (sender : Address) (c : Call oz) :
    WrappedCryptEX oz × List Event :=
  (s.call evm sender c).getD (s, [])

end WrappedCryptEX

end Bridge

end Cryptex
