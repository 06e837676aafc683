import Cryptex.Bridge.AdminRules

/-!
# The contracts that the token extends

`ERC20.sol`, `ERC20Capped.sol`, `ERC20Pausable.sol`, `Pausable.sol`,
`ERC20Permit.sol` with `Nonces.sol`, `EIP712.sol` and `ECDSA.sol`, and the access
rules, as they are under `evm/lib/openzeppelin-contracts`. They behave as
documented. A call that reads the block time carries it.
-/

namespace Cryptex.Bridge

/-! ## ERC20 -/

/-- `ERC20._update`: the sum of the supply is checked, the rest is not. -/
def erc20Update : Update := fun t src dst value =>
  let debited : Option Token :=
    if src = 0 then
      if t.totalSupply.toNat + value.toNat < 2 ^ 256 then
        some { t with totalSupply := t.totalSupply + value }
      else none
    else if t.balances src < value then none
    else some { t with balances := Function.update t.balances src (t.balances src - value) }
  debited.map fun t =>
    if dst = 0 then { t with totalSupply := t.totalSupply - value }
    else { t with balances := Function.update t.balances dst (t.balances dst + value) }

/-- `ERC20Capped._update`. -/
def cappedUpdate (cap : Nat) (super : Update) : Update := fun t src dst value =>
  (super t src dst value).bind fun t =>
    if src = 0 then if t.totalSupply.toNat > cap then none else some t else some t

/-- `ERC20Pausable._update`. -/
def pausableUpdate (paused : Bool) (super : Update) : Update := fun t src dst value =>
  if paused then none else super t src dst value

def mint (update : Update) (t : Token) (account : Address) (value : UInt256) : Option Token :=
  if account = 0 then none else update t 0 account value

def burn (update : Update) (t : Token) (account : Address) (value : UInt256) : Option Token :=
  if account = 0 then none else update t account 0 value

def transfer (update : Update) (t : Token) (src dst : Address) (value : UInt256) : Option Token :=
  if src = 0 then none else if dst = 0 then none else update t src dst value

/-! ## Allowances and permits -/

/-- `_allowances` of `ERC20` and `_nonces` of `Nonces`. -/
structure AllowanceState where
  allowances : Address → Address → UInt256
  nonces : Address → UInt256

/-- What a permit is signed for. The cached domain separator is the one that is
built again. -/
structure PermitEnv where
  evm : Evm
  name : Bytes
  ecrecover : Hash256 → UInt8 → Hash256 → Hash256 → Address

inductive AllowanceCall where
  | approve (spender : Address) (value : UInt256)
  | permit (now : Nat) (owner spender : Address) (value deadline : UInt256) (v : UInt8)
      (r s : Hash256)

namespace PermitEnv

variable (env : PermitEnv)

def permitTypehash : Hash256 := env.evm.keccak256 (ascii
  "Permit(address owner,address spender,uint256 value,uint256 nonce,uint256 deadline)")

def typeHash : Hash256 := env.evm.keccak256 (ascii
  "EIP712Domain(string name,string version,uint256 chainId,address verifyingContract)")

/-- `_buildDomainSeparator`. -/
def domainSeparator : Hash256 := env.evm.keccak256 (abiEncode
  [.word env.typeHash, .word (env.evm.keccak256 env.name), .word (env.evm.keccak256 (ascii "1")),
    .word env.evm.chainId, addressWord env.evm.this])

/-- `_hashTypedDataV4` of a permit. -/
def digest (owner spender : Address) (value nonce deadline : UInt256) : Hash256 :=
  let structHash := env.evm.keccak256 (abiEncode [.word env.permitTypehash, addressWord owner,
    addressWord spender, .word value, .word nonce, .word deadline])
  env.evm.keccak256 ([0x19, 0x01] ++ env.domainSeparator.toBytes ++ structHash.toBytes)

/-- The greatest `s` of a signature. -/
def maxSignatureS : Hash256 := 0x7FFFFFFFFFFFFFFFFFFFFFFFFFFFFFFF5D576E7357A4501DDFE92F46681B20A0

/-- `ECDSA.recover`. -/
def recover (hash : Hash256) (v : UInt8) (r s : Hash256) : Option Address :=
  if maxSignatureS < s then none
  else if env.ecrecover hash v r s = 0 then none
  else some (env.ecrecover hash v r s)

end PermitEnv

namespace AllowanceState

variable (s : AllowanceState)

/-- `_approve`. -/
def internalApprove (owner spender : Address) (value : UInt256) : Option AllowanceState :=
  if owner = 0 then none
  else if spender = 0 then none
  else
    some { s with
      allowances := fun o p => if o = owner ∧ p = spender then value else s.allowances o p }

/-- `_spendAllowance`: the greatest value is no limit. -/
def spendAllowance (owner spender : Address) (value : UInt256) : Option AllowanceState :=
  let currentAllowance := s.allowances owner spender
  if currentAllowance < BitVec.allOnes 256 then
    if currentAllowance < value then none
    else s.internalApprove owner spender (currentAllowance - value)
  else some s

/-- `_useNonce`: the nonce to use, and the state after it. -/
def useNonce (owner : Address) : UInt256 × AllowanceState :=
  (s.nonces owner, { s with nonces := Function.update s.nonces owner (s.nonces owner + 1) })

def permit (env : PermitEnv) (now : Nat) (owner spender : Address) (value deadline : UInt256)
    (v : UInt8) (r s' : Hash256) : Option AllowanceState :=
  if now > deadline.toNat then none
  else
    let used := s.useNonce owner
    match env.recover (env.digest owner spender value used.1 deadline) v r s' with
    | none => none
    | some signer =>
        if signer ≠ owner then none else used.2.internalApprove owner spender value

def call (env : PermitEnv) (sender : Address) : AllowanceCall → Option AllowanceState
  | .approve spender value => s.internalApprove sender spender value
  | .permit now owner spender value deadline v r s' =>
      s.permit env now owner spender value deadline v r s'

end AllowanceState

/-! ## The contracts together -/

/-- The vendored contracts. The constructor of the token grants no role that is the
default admin's, so there `_grantRole` does not revert. -/
def vendored (env : PermitEnv) : OpenZeppelin where
  Access := AccessState
  AccessCall := Nat × AccessCall
  initialAccess := AccessState.init
  hasRole := AccessState.hasRole
  grantRole access role account := (access.internalGrantRole role account).getD access
  accessCall access sender c := access.call c.1 sender c.2
  Allowances := AllowanceState
  AllowanceCall := AllowanceCall
  initialAllowances := ⟨fun _ _ => 0, fun _ => 0⟩
  spendAllowance := AllowanceState.spendAllowance
  allowanceCall allowances sender c := allowances.call env sender c
  pause paused := if paused then none else some true
  unpause paused := if !paused then none else some false
  erc20Update := erc20Update
  cappedUpdate := cappedUpdate
  pausableUpdate := pausableUpdate
  mint := mint
  burn := burn
  transfer := transfer

theorem erc20Update_eq_some {t t' : Token} {src dst : Address} {value : UInt256}
    (h : erc20Update t src dst value = some t') :
    (src = 0 → t.totalSupply.toNat + value.toNat < 2 ^ 256) ∧
      (src ≠ 0 → value ≤ t.balances src) ∧ t' = t.moved src dst value := by
  rw [erc20Update] at h
  by_cases hsrc : src = 0
  · rw [if_pos hsrc] at h
    by_cases hlt : t.totalSupply.toNat + value.toNat < 2 ^ 256
    · rw [if_pos hlt] at h
      cases h
      refine ⟨fun _ => hlt, fun hne => absurd hsrc hne, ?_⟩
      rw [Token.moved, if_pos hsrc]
    · rw [if_neg hlt] at h
      cases h
  · rw [if_neg hsrc] at h
    by_cases hless : t.balances src < value
    · rw [if_pos hless] at h
      cases h
    · rw [if_neg hless] at h
      cases h
      refine ⟨fun heq => absurd heq hsrc, fun _ => BitVec.not_lt.mp hless, ?_⟩
      rw [Token.moved, if_neg hsrc]

/-- The contracts do what the token relies on. -/
theorem documented_vendored (env : PermitEnv) : (vendored env).Documented where
  erc20Update := erc20Update_eq_some
  cappedUpdate {cap super t src dst value t'} h := by
    obtain ⟨mid, hsuper, hcap⟩ := Option.bind_eq_some_iff.mp h
    split at hcap
    · split at hcap
      · cases hcap
      · next hle =>
          cases hcap
          exact ⟨hsuper, fun _ => Nat.le_of_not_lt hle⟩
    · next hsrc =>
        cases hcap
        exact ⟨hsuper, fun heq => absurd heq hsrc⟩
  pausableUpdate {paused super t src dst value t'} h := by
    cases paused with
    | true => cases h
    | false => exact ⟨h, rfl⟩
  mint {update t account value t'} h := by
    change (if account = 0 then none else update t 0 account value) = some t' at h
    split at h
    · cases h
    · next haccount => exact ⟨haccount, h⟩
  burn {update t account value t'} h := by
    change (if account = 0 then none else update t account 0 value) = some t' at h
    split at h
    · cases h
    · next haccount => exact ⟨haccount, h⟩
  transfer {update t src dst value t'} h := by
    change (if src = 0 then none else if dst = 0 then none else update t src dst value) = some t' at h
    split at h
    · cases h
    · next hsrc =>
        split at h
        · cases h
        · next hdst => exact ⟨hsrc, hdst, h⟩

end Cryptex.Bridge
