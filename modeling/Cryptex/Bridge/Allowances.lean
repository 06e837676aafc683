import Cryptex.Bridge.Authority
import Mathlib.Data.BitVec

/-!
# Allowances and permits over whole runs

What a spender has taken of what an owner allowed and what is left add up to what
was allowed, until the owner allows something else. A permit is signed for the
number of the permits of its owner before it.
-/

namespace Cryptex.Bridge

namespace WrappedCryptEX

open Provenance

variable {env : PermitEnv}

def allowance (s : WrappedCryptEX (vendored env)) (owner spender : Address) : UInt256 :=
  AllowanceState.allowances s.allowances owner spender

def permitNonce (s : WrappedCryptEX (vendored env)) (owner : Address) : UInt256 :=
  AllowanceState.nonces s.allowances owner

/-! ## Spending -/

/-- The owner, or somebody with a permit, sets the allowance. -/
def Sets (owner spender : Address) (e : TokenEntry (vendored env)) : Prop :=
  (∃ value, e.call = .allowance (AllowanceCall.approve spender value) ∧ e.sender = owner) ∨
    ∃ now value deadline v r s,
      e.call = .allowance (AllowanceCall.permit now owner spender value deadline v r s)

/-- What the spender takes from the owner with a call. -/
def spentBy (owner spender : Address) (s : WrappedCryptEX (vendored env))
    (e : TokenEntry (vendored env)) : Nat :=
  if (s.call env.evm e.sender e.call).isSome ∧ e.sender = spender then
    match e.call.spends with
    | some (account, amount) => if account = owner then amount.toNat else 0
    | none => 0
  else 0

theorem internalApprove_eq_some {s s' : AllowanceState} {owner spender : Address} {value : UInt256}
    (h : s.internalApprove owner spender value = some s') :
    s'.nonces = s.nonces ∧ ∀ o p, s'.allowances o p =
      if o = owner ∧ p = spender then value else s.allowances o p := by
  rw [AllowanceState.internalApprove] at h
  split at h
  · cases h
  · split at h
    · cases h
    · cases h
      exact ⟨rfl, fun _ _ => rfl⟩

/-- Nothing but the allowance is used up, and no more than there is. -/
theorem spendAllowance_eq_some {s s' : AllowanceState} {owner spender : Address} {value : UInt256}
    (h : s.spendAllowance owner spender value = some s') : s'.nonces = s.nonces ∧
      (∀ o p, ¬ (o = owner ∧ p = spender) → s'.allowances o p = s.allowances o p) ∧
      (s.allowances owner spender ≠ BitVec.allOnes 256 →
        (s'.allowances owner spender).toNat + value.toNat = (s.allowances owner spender).toNat) := by
  rw [AllowanceState.spendAllowance] at h
  split at h
  · split at h
    · cases h
    · next hle =>
        obtain ⟨hnonces, hset⟩ := internalApprove_eq_some h
        refine ⟨hnonces, fun o p hne => by rw [hset, if_neg hne], fun _ => ?_⟩
        have hle' : value.toNat ≤ (s.allowances owner spender).toNat :=
          BitVec.le_def.mp (BitVec.not_lt.mp hle)
        rw [hset, if_pos ⟨rfl, rfl⟩, BitVec.toNat_sub_of_le (BitVec.not_lt.mp hle)]
        omega
  · next hmax =>
      cases h
      refine ⟨rfl, fun _ _ _ => rfl, fun hne => ?_⟩
      have hlt := (s.allowances owner spender).isLt
      exfalso
      refine hne (BitVec.eq_of_toNat_eq ?_)
      have hge := BitVec.le_def.mp (BitVec.not_lt.mp hmax)
      rw [BitVec.toNat_allOnes] at hge ⊢
      omega

/-- A signature is checked for the nonce of the owner, which is used up. -/
theorem permit_eq_some {s s' : AllowanceState} {now : Nat} {owner spender : Address}
    {value deadline : UInt256} {v : UInt8} {r sig : Hash256}
    (h : s.permit env now owner spender value deadline v r sig = some s') :
    now ≤ deadline.toNat ∧
      env.recover (env.digest owner spender value (s.nonces owner) deadline) v r sig = some owner ∧
      s'.nonces = Function.update s.nonces owner (s.nonces owner + 1) ∧
      ∀ o p, s'.allowances o p = if o = owner ∧ p = spender then value else s.allowances o p := by
  rw [AllowanceState.permit] at h
  split at h
  · cases h
  · next hdeadline =>
      simp only at h
      split at h
      · cases h
      · next signer hsigner =>
          split at h
          · cases h
          · next heq =>
              obtain rfl := not_not.mp heq
              obtain ⟨hnonces, hset⟩ := internalApprove_eq_some h
              exact ⟨Nat.le_of_not_lt hdeadline, hsigner, hnonces, hset⟩

/-! ## Runs -/

variable {owner spender : Address}

theorem spentBy_of_step {s : WrappedCryptEX (vendored env)} {e : TokenEntry (vendored env)}
    (h : e.call.spends = none) : spentBy owner spender s e = 0 := by
  rw [spentBy]
  split
  · rw [h]
  · rfl

/-- One call takes from a limited allowance what the spender gets. -/
theorem allowance_step (s : WrappedCryptEX (vendored env)) (e : TokenEntry (vendored env))
    (hsets : ¬ Sets owner spender e) (hlimited : s.allowance owner spender ≠ BitVec.allOnes 256) :
    ((s.step env.evm e).allowance owner spender).toNat + spentBy owner spender s e =
      (s.allowance owner spender).toNat := by
  cases hcall : s.call env.evm e.sender e.call with
  | none =>
      have hstep : s.step env.evm e = s := by rw [step, after, hcall]; rfl
      rw [hstep, spentBy, hcall, if_neg fun hboth => Bool.false_ne_true hboth.1]
      rfl
  | some res =>
      have hkept : (s.step env.evm e).allowances = s.allowances →
          ((s.step env.evm e).allowance owner spender).toNat = (s.allowance owner spender).toNat :=
        fun heq => by rw [allowance, allowance, heq]
      have hparts := call_parts hcall
      have hstep : s.step env.evm e = res.1 := by rw [step, after, hcall]; rfl
      rw [← hstep] at hparts
      obtain ⟨sender, hne, call⟩ := e
      generalize hnext : s.step env.evm ⟨sender, hne, call⟩ = s' at hparts hkept
      generalize res.2 = evs at hparts
      cases hparts with
      | minted _ _ hallowances =>
          rw [spentBy_of_step rfl, hkept hallowances]
          rfl
      | spent hspends hspend haccess hevs =>
          rename_i account amount
          obtain ⟨-, hother, hused⟩ := spendAllowance_eq_some hspend
          simp only [spentBy, hcall, Option.isSome_some, true_and, hspends]
          by_cases hsender : sender = spender
          · rw [if_pos hsender]
            by_cases haccount : account = owner
            · rw [if_pos haccount]
              subst hsender haccount
              exact hused hlimited
            · rw [if_neg haccount, allowance,
                hother owner spender fun hboth => haccount hboth.1.symm]
              rfl
          · rw [if_neg hsender, allowance,
              hother owner spender fun hboth => hsender hboth.2.symm]
            rfl
      | allowance hset haccess =>
          rename_i c
          have heq : s'.allowance owner spender = s.allowance owner spender := by
            cases c with
            | approve other value =>
                obtain ⟨-, hset⟩ := internalApprove_eq_some hset
                exact (hset owner spender).trans (if_neg fun hboth =>
                  hsets (.inl ⟨value, by rw [hboth.2], hboth.1.symm⟩))
            | permit now owner' spender' value deadline v r sig =>
                obtain ⟨-, -, -, hset⟩ := permit_eq_some hset
                refine (hset owner spender).trans (if_neg fun hboth => hsets (.inr ?_))
                exact ⟨now, value, deadline, v, r, sig, by rw [hboth.1, hboth.2]⟩
          rw [spentBy_of_step rfl, heq]
          rfl
      | access _ hallowances =>
          rw [spentBy_of_step rfl, hkept hallowances]
          rfl
      | other hspends _ hallowances =>
          rw [spentBy_of_step hspends, hkept hallowances]
          rfl

/-- As long as the owner allows nothing else, what a spender takes in a run and what
is left of the allowance are what was allowed. -/
theorem allowance_run {s : WrappedCryptEX (vendored env)} {entries : List (TokenEntry (vendored env))}
    (hsets : ∀ e ∈ entries, ¬ Sets owner spender e)
    (hlimited : s.allowance owner spender ≠ BitVec.allOnes 256) :
    ((entries.foldl (step env.evm) s).allowance owner spender).toNat +
        ((visits (step env.evm) s entries).map fun v => spentBy owner spender v.1 v.2).sum =
      (s.allowance owner spender).toNat := by
  have hmax : ∀ {x : UInt256}, x ≠ BitVec.allOnes 256 ↔ x.toNat < 2 ^ 256 - 1 := by
    intro x
    have hlt := x.isLt
    rw [ne_eq, ← BitVec.toNat_inj, BitVec.toNat_allOnes]
    omega
  have hinv : ∀ (s : WrappedCryptEX (vendored env)) e, ¬ Sets owner spender e →
      s.allowance owner spender ≠ BitVec.allOnes 256 →
      (s.step env.evm e).allowance owner spender ≠ BitVec.allOnes 256 := by
    intro s e hsets hlimited
    have hone := allowance_step s e hsets hlimited
    rw [hmax] at hlimited ⊢
    omega
  exact @foldl_used _ _ _ _ _ (fun s => (s.allowance owner spender).toNat) (spentBy owner spender)
    hinv allowance_step entries s hsets hlimited

/-! ## Permits -/

/-- 1 for a permit of the owner that is accepted. -/
def permitted (owner : Address) (s : WrappedCryptEX (vendored env))
    (e : TokenEntry (vendored env)) : UInt256 :=
  match e.call with
  | .allowance (AllowanceCall.permit now o spender value deadline v r sig) =>
      if o = owner ∧
          (AllowanceState.permit s.allowances env now o spender value deadline v r sig).isSome then 1
      else 0
  | _ => 0

theorem permitted_of_call {s : WrappedCryptEX (vendored env)} {e : TokenEntry (vendored env)}
    (h : ∀ c, e.call ≠ .allowance c) (owner : Address) : permitted owner s e = 0 := by
  rw [permitted]
  split
  · next hcall => exact absurd hcall (h _)
  · rfl

theorem nonces_spend {s : WrappedCryptEX (vendored env)} {allowances : AllowanceState}
    {account sender : Address} {amount : UInt256}
    (h : (vendored env).spendAllowance s.allowances account sender amount = some allowances) :
    allowances.nonces = AllowanceState.nonces s.allowances := (spendAllowance_eq_some h).1

theorem permitNonce_step (owner : Address) (s : WrappedCryptEX (vendored env))
    (e : TokenEntry (vendored env)) :
    (s.step env.evm e).permitNonce owner = s.permitNonce owner + permitted owner s e := by
  by_cases hallowance : ∃ c, e.call = .allowance c
  · obtain ⟨c, hc⟩ := hallowance
    have hcall : s.call env.evm e.sender e.call =
        (AllowanceState.call s.allowances env e.sender c).map fun allowances =>
          ({ s with allowances := allowances }, []) := by
      rw [hc]
      rfl
    cases c with
    | approve spender value =>
        have hzero : permitted owner s e = 0 := by rw [permitted, hc]
        rw [hzero, add_zero, step, after, hcall]
        cases happrove : AllowanceState.call s.allowances env e.sender (.approve spender value) with
        | none => rfl
        | some allowances => exact congrFun (internalApprove_eq_some happrove).1 owner
    | permit now o spender value deadline v r sig =>
        simp only [permitted, hc]
        rw [step, after, hcall]
        change (((AllowanceState.permit s.allowances env now o spender value deadline v r sig).map
          fun allowances => ({ s with allowances := allowances }, [])).getD (s, [])).1.permitNonce
            owner = _
        cases hpermit : AllowanceState.permit s.allowances env now o spender value deadline v r sig with
        | none =>
            rw [if_neg fun hboth => Bool.false_ne_true hboth.2, add_zero]
            rfl
        | some allowances =>
            obtain ⟨-, -, hnonces, -⟩ := permit_eq_some hpermit
            change allowances.nonces owner = _
            rw [hnonces]
            by_cases ho : o = owner
            · subst ho
              rw [if_pos ⟨rfl, rfl⟩, Function.update_self]
              rfl
            · rw [if_neg fun hboth => ho hboth.1, add_zero,
                Function.update_of_ne (Ne.symm ho)]
              rfl
  · have hnot : ∀ c, e.call ≠ .allowance c := fun c hc => hallowance ⟨c, hc⟩
    rw [permitted_of_call hnot, add_zero]
    obtain ⟨-, hstep⟩ | hparts := step_parts env.evm s e
    · rw [hstep]
    · generalize s.step env.evm e = s' at hparts
      generalize (s.after env.evm e.sender e.call).2 = evs at hparts
      generalize e.call = call at hparts hnot
      cases hparts with
      | minted _ _ hallowances => rw [permitNonce, permitNonce, hallowances]
      | spent _ hspend => exact congrFun (nonces_spend hspend) owner
      | allowance => exact absurd rfl (hnot _)
      | access _ hallowances => rw [permitNonce, permitNonce, hallowances]
      | other _ _ hallowances => rw [permitNonce, permitNonce, hallowances]

/-- A permit that is accepted, in whatever state a run has led to, is signed by its
owner for the number of accepted permits of that owner before it, counted from the
nonce at the start; it is good until its deadline, sets the allowance and takes
the nonce. -/
theorem permit_signed {s : WrappedCryptEX (vendored env)} {entries : List (TokenEntry (vendored env))}
    {e : TokenEntry (vendored env)} {now : Nat} {value deadline : UInt256} {v : UInt8}
    {r sig : Hash256}
    (hcall : e.call =
      .allowance (AllowanceCall.permit now owner spender value deadline v r sig))
    (haccepted :
      ((entries.foldl (step env.evm) s).call env.evm e.sender e.call).isSome = true) :
    ∃ nonce, nonce = s.permitNonce owner +
        ((visits (step env.evm) s entries).map fun v => permitted owner v.1 v.2).sum ∧
      env.recover (env.digest owner spender value nonce deadline) v r sig = some owner ∧
      now ≤ deadline.toNat ∧
      ((entries ++ [e]).foldl (step env.evm) s).allowance owner spender = value ∧
      ((entries ++ [e]).foldl (step env.evm) s).permitNonce owner = nonce + 1 := by
  have hcalled : (entries.foldl (step env.evm) s).call env.evm e.sender e.call =
      (AllowanceState.permit (entries.foldl (step env.evm) s).allowances env now owner spender value
        deadline v r sig).map fun allowances =>
          ({ entries.foldl (step env.evm) s with allowances := allowances }, []) := by
    rw [hcall]
    rfl
  rw [hcalled, Option.isSome_map] at haccepted
  obtain ⟨allowances, hpermit⟩ := Option.isSome_iff_exists.mp haccepted
  obtain ⟨hdeadline, hsigned, hnonces, hset⟩ := permit_eq_some hpermit
  have hnext : (entries ++ [e]).foldl (step env.evm) s =
      { entries.foldl (step env.evm) s with allowances := allowances } := by
    rw [List.foldl_append, List.foldl_cons, List.foldl_nil, step, after, hcalled, hpermit]
    rfl
  have hnonce := @foldl_sum _ _ (step env.evm) _ _ (fun s => s.permitNonce owner)
    (permitted owner) (permitNonce_step owner) entries s
  refine ⟨_, rfl, ?_, hdeadline, ?_, ?_⟩
  · rw [← hnonce]
    exact hsigned
  · rw [hnext]
    exact (hset owner spender).trans (if_pos ⟨rfl, rfl⟩)
  · rw [hnext, ← hnonce]
    change allowances.nonces owner = _
    rw [hnonces, Function.update_self]
    rfl

/-! ### A sample -/

theorem five_ne : (5 : Address) ≠ 0 := by decide

/-- A token of which 7 has 30 units and lets 5 take 20. -/
def sampleToken (env : PermitEnv) : WrappedCryptEX (vendored env) where
  token := ⟨fun a => if a = 7 then 300000000000 else 0, 300000000000⟩
  allowances := (⟨fun _ _ => 200000000000, fun _ => 3⟩ : AllowanceState)
  access := AccessState.exampleAccess
  paused := false
  processedDeposits _ := false
  redemptionNonce := 0

/-- 5 takes 15 units, and 10 more in vain. -/
def sampleTaking : List (TokenEntry (vendored sampleEnv)) :=
  [⟨5, five_ne, .transferFrom 7 8 150000000000⟩, ⟨5, five_ne, .transferFrom 7 8 100000000000⟩]

theorem allowance_run_five :
    ((sampleTaking.foldl (step sampleEnv.evm) (sampleToken sampleEnv)).allowance 7 5).toNat +
        ((visits (step sampleEnv.evm) (sampleToken sampleEnv) sampleTaking).map fun v =>
          spentBy 7 5 v.1 v.2).sum = 200000000000 := by
  have hsets : ∀ e ∈ sampleTaking, ¬ Sets 7 5 e := by
    intro e he
    simp only [sampleTaking, List.mem_cons, List.not_mem_nil, or_false] at he
    obtain rfl | rfl := he
    · rintro (⟨_, h, -⟩ | ⟨_, _, _, _, _, _, h⟩) <;> cases h
    · rintro (⟨_, h, -⟩ | ⟨_, _, _, _, _, _, h⟩) <;> cases h
  have hlimited : (sampleToken sampleEnv).allowance 7 5 ≠ BitVec.allOnes 256 := by decide
  exact allowance_run hsets hlimited

/-- Every signature is one of 7. -/
def samplePermitEnv : PermitEnv := ⟨sampleEvm, ascii "Wrapped CryptEX", fun _ _ _ _ => 7⟩

def samplePermit (value : UInt256) : TokenEntry (vendored samplePermitEnv) :=
  ⟨5, five_ne, .allowance (AllowanceCall.permit 100 7 5 value 200 27 1 1)⟩

theorem permit_signed_seven : ∃ nonce, nonce = 3 +
        ((visits (step samplePermitEnv.evm) (sampleToken samplePermitEnv)
          [samplePermit 1, samplePermit 2]).map fun v => permitted 7 v.1 v.2).sum ∧
      samplePermitEnv.recover (samplePermitEnv.digest 7 5 9 nonce 200) 27 1 1 = some 7 ∧
      100 ≤ (200 : UInt256).toNat ∧
      (([samplePermit 1, samplePermit 2] ++ [samplePermit 9]).foldl (step samplePermitEnv.evm)
        (sampleToken samplePermitEnv)).allowance 7 5 = 9 ∧
      (([samplePermit 1, samplePermit 2] ++ [samplePermit 9]).foldl (step samplePermitEnv.evm)
        (sampleToken samplePermitEnv)).permitNonce 7 = nonce + 1 := by
  have haccepted : (([samplePermit 1, samplePermit 2].foldl (step samplePermitEnv.evm)
      (sampleToken samplePermitEnv)).call samplePermitEnv.evm (samplePermit 9).sender
      (samplePermit 9).call).isSome = true := rfl
  exact permit_signed rfl haccepted

end WrappedCryptEX

end Cryptex.Bridge
