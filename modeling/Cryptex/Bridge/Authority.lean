import Cryptex.Bridge.Conservation
import Cryptex.Bridge.Vendored
import Cryptex.Lib.Provenance

/-!
# Who may do what

Runs of calls to the token over the contracts it extends, by callers other than the
zero address. Whoever mints was made a minter when the token was deployed or by the
default admin of that time; whoever is the default admin was so from the start, or
was chosen by the default admin and has accepted. A spender spends what the owner
allowed, and a permit is good for one nonce.
-/

namespace Cryptex.Bridge

open Provenance

/-- An event that is no mint. -/
def Event.IsRedemption : Event → Prop
  | .bridgeMintRecorded .. => False
  | .redemptionRequested .. => True

namespace WrappedCryptEX

/-- A call and its caller. -/
structure TokenEntry (oz : OpenZeppelin) where
  sender : Address
  sender_ne : sender ≠ 0
  call : Call oz

/-- The call spends from the allowance of this account. -/
def Call.spends {oz : OpenZeppelin} : Call oz → Option (Address × UInt256)
  | .requestRedemptionFrom account amount _ => some (account, amount)
  | .transferFrom src _ value => some (src, value)
  | _ => none

variable {oz : OpenZeppelin} {evm : Evm} {s s' : WrappedCryptEX oz} {sender : Address}
  {evs : List Event}

def step (evm : Evm) (s : WrappedCryptEX oz) (e : TokenEntry oz) : WrappedCryptEX oz :=
  (s.after evm e.sender e.call).1

/-! ## The parts of a call -/

/-- What a call that does not revert does to roles and allowances, and whom it
records as a minter. -/
inductive Parts (evm : Evm) (s : WrappedCryptEX oz) (sender : Address) :
    Call oz → WrappedCryptEX oz → List Event → Prop where
  | minted {recipient amount depositId nativeTxId nativeSender s'} :
      oz.hasRole s.access (minterRole evm) sender = true → s'.access = s.access →
      s'.allowances = s.allowances →
      Parts evm s sender (.mintFromBridge recipient amount depositId nativeTxId nativeSender) s'
        [.bridgeMintRecorded depositId nativeTxId recipient amount nativeSender sender]
  | spent {c account amount s' evs} : c.spends = some (account, amount) →
      oz.spendAllowance s.allowances account sender amount = some s'.allowances →
      s'.access = s.access → (∀ ev ∈ evs, ev.IsRedemption) → Parts evm s sender c s' evs
  | allowance {c s'} : oz.allowanceCall s.allowances sender c = some s'.allowances →
      s'.access = s.access → Parts evm s sender (.allowance c) s' []
  | access {c s'} : oz.accessCall s.access sender c = some s'.access →
      s'.allowances = s.allowances → Parts evm s sender (.access c) s' []
  | other {c s' evs} : c.spends = none → s'.access = s.access → s'.allowances = s.allowances →
      (∀ ev ∈ evs, ev.IsRedemption) → Parts evm s sender c s' evs

theorem redeem_parts {account operator : Address} {amount : UInt256} {nativeDestination : Bytes}
    (h : redeem evm s account operator amount nativeDestination = some (s', evs)) :
    s'.access = s.access ∧ s'.allowances = s.allowances ∧ ∀ ev ∈ evs, ev.IsRedemption := by
  unfold redeem at h
  repeat' split at h
  all_goals try cases h
  obtain ⟨t, -, heq⟩ := Option.map_eq_some_iff.mp h
  cases heq
  refine ⟨rfl, rfl, fun ev hev => ?_⟩
  rw [List.mem_singleton.mp hev]
  trivial

theorem mintFromBridge_parts {recipient : Address} {amount : UInt256}
    {depositId nativeTxId : Hash256} {nativeSender : Bytes}
    (h : mintFromBridge evm s sender recipient amount depositId nativeTxId nativeSender
      = some (s', evs)) :
    Parts evm s sender (.mintFromBridge recipient amount depositId nativeTxId nativeSender) s'
      evs := by
  rw [mintFromBridge] at h
  split at h
  · cases h
  · next hrole =>
      repeat' split at h
      all_goals try cases h
      obtain ⟨t, -, heq⟩ := Option.map_eq_some_iff.mp h
      cases heq
      exact .minted (by simpa using hrole) rfl rfl

theorem no_events (ev : Event) (h : ev ∈ ([] : List Event)) : ev.IsRedemption :=
  absurd h List.not_mem_nil

theorem call_parts {c : Call oz} (h : s.call evm sender c = some (s', evs)) :
    Parts evm s sender c s' evs := by
  cases c with
  | mintFromBridge recipient amount depositId nativeTxId nativeSender =>
      exact mintFromBridge_parts h
  | requestRedemption amount nativeDestination =>
      rw [call] at h
      split at h
      · cases h
      · obtain ⟨haccess, hallowances, hevs⟩ := redeem_parts h
        exact .other rfl haccess hallowances hevs
  | requestRedemptionFrom account amount nativeDestination =>
      rw [call] at h
      split at h
      · cases h
      · split at h
        · cases h
        · next allowances hspend =>
            obtain ⟨haccess, hallowances, hevs⟩ := redeem_parts h
            exact .spent rfl (hspend.trans (congrArg some hallowances.symm)) haccess hevs
  | transfer recipient value =>
      obtain ⟨t, -, heq⟩ := Option.map_eq_some_iff.mp h
      cases heq
      exact .other rfl rfl rfl no_events
  | transferFrom src dst value =>
      rw [call] at h
      split at h
      · cases h
      · next allowances hspend =>
          obtain ⟨t, -, heq⟩ := Option.map_eq_some_iff.mp h
          cases heq
          exact .spent rfl hspend rfl no_events
  | allowance c =>
      obtain ⟨allowances, hallowances, heq⟩ := Option.map_eq_some_iff.mp h
      cases heq
      exact .allowance hallowances rfl
  | access c =>
      obtain ⟨access, haccess, heq⟩ := Option.map_eq_some_iff.mp h
      cases heq
      exact .access haccess rfl
  | pause | unpause =>
      rw [call] at h
      split at h
      · cases h
      · obtain ⟨paused, -, heq⟩ := Option.map_eq_some_iff.mp h
        cases heq
        exact .other rfl rfl rfl no_events
  | rescueERC20 token recipient amount =>
      rw [call] at h
      repeat' split at h
      all_goals cases h
      exact .other rfl rfl rfl no_events

/-- What a call that reverts, or one that does not, leaves. -/
theorem step_parts (evm : Evm) (s : WrappedCryptEX oz) (e : TokenEntry oz) :
    (s.after evm e.sender e.call = (s, []) ∧ s.step evm e = s) ∨
      Parts evm s e.sender e.call (s.step evm e) (s.after evm e.sender e.call).2 := by
  rw [step, after]
  cases hcall : s.call evm e.sender e.call with
  | none => exact .inl ⟨rfl, rfl⟩
  | some r => exact .inr (call_parts hcall)

/-- A mint is recorded in the name of its caller, a minter. -/
theorem minted_by {e : TokenEntry oz} {depositId nativeTxId : Hash256}
    {recipient operator : Address} {amount : UInt256} {nativeSender : Bytes}
    (h : .bridgeMintRecorded depositId nativeTxId recipient amount nativeSender operator ∈
      (s.after evm e.sender e.call).2) :
    operator = e.sender ∧ oz.hasRole s.access (minterRole evm) operator = true := by
  obtain ⟨hafter, -⟩ | hparts := step_parts evm s e
  · rw [hafter] at h
    cases h
  · generalize (s.after evm e.sender e.call).2 = evs at h hparts
    generalize e.call = call at hparts
    cases hparts with
    | minted hrole =>
        obtain ⟨-, -, -, -, -, rfl⟩ := Event.bridgeMintRecorded.inj (List.mem_singleton.mp h)
        exact ⟨rfl, hrole⟩
    | spent _ _ _ hevs => exact absurd (hevs _ h) id
    | allowance => cases h
    | access => cases h
    | other _ _ _ hevs => exact absurd (hevs _ h) id

/-! ## Roles -/

section Roles

variable {env : PermitEnv}

/-- A call goes to the access rules, or leaves them alone. -/
theorem access_step (s : WrappedCryptEX (vendored env)) (e : TokenEntry (vendored env)) :
    (s.step env.evm e).access = s.access ∨ ∃ now c, e.call = .access (now, c) ∧
      s.access.call now e.sender c = some (s.step env.evm e).access := by
  obtain ⟨-, hstep⟩ | hparts := step_parts env.evm s e
  · exact .inl (by rw [hstep])
  · generalize hcall : e.call = call at hparts
    generalize (s.after env.evm e.sender call).2 = evs at hparts
    cases hparts with
    | minted _ haccess => exact .inl haccess
    | spent _ _ haccess => exact .inl haccess
    | allowance _ haccess => exact .inl haccess
    | @access c _ haccess => exact .inr ⟨c.1, c.2, rfl, haccess⟩
    | other _ haccess => exact .inl haccess

theorem sound_step (s : WrappedCryptEX (vendored env)) (e : TokenEntry (vendored env))
    (h : AccessState.Sound s.access) : AccessState.Sound (s.step env.evm e).access := by
  obtain heq | ⟨now, c, -, hcall⟩ := access_step s e
  · rw [heq]
    exact h
  · exact AccessState.Sound.change h e.sender_ne (AccessState.call_change hcall)

/-- The names of the roles have different hashes, which are not zero. -/
structure DistinctRoles (evm : Evm) : Prop where
  minter : minterRole evm ≠ defaultAdminRole
  pauser : pauserRole evm ≠ defaultAdminRole
  ne : minterRole evm ≠ pauserRole evm

/-- The roles of a token that was just deployed. -/
structure Deployed (evm : Evm) (initialAdmin initialMinter : Address) (s : AccessState) :
    Prop where
  sound : s.Sound
  admin : s.currentDefaultAdmin = initialAdmin
  nobody : s.pendingDefaultAdmin = 0
  minter : ∀ a, s.hasRole (minterRole evm) a = true → a = initialMinter

theorem sound_init {delay : Nat} {admin : Address} {s : AccessState}
    (h : AccessState.init delay admin = some s) : s.Sound ∧ s.currentDefaultAdmin = admin ∧
      s.pendingDefaultAdmin = 0 ∧ ∀ role a, role ≠ defaultAdminRole → s.hasRole role a = false := by
  rw [AccessState.init] at h
  split at h
  · cases h
  · next hadmin =>
      rw [AccessState.internalGrantRole_admin rfl] at h
      cases h
      refine ⟨⟨fun a => ?_, fun _ => rfl⟩, rfl, rfl, fun role a hrole => ?_⟩
      · rw [AccessState.setRole_hasRole]
        split
        · next hboth => exact iff_of_true rfl ⟨hboth.2, fun h0 => hadmin (hboth.2.symm.trans h0)⟩
        · next hne => exact iff_of_false Bool.false_ne_true fun hand => hne ⟨rfl, hand.1⟩
      · rw [AccessState.setRole_hasRole, if_neg fun hboth => hrole hboth.1]

/-- Another role is granted in the constructor. -/
theorem Deployed.grant {evm : Evm} {admin minter : Address} {s : AccessState} {role : Hash256}
    {a : Address} (h : Deployed evm admin minter s) (hrole : role ≠ defaultAdminRole)
    (hminter : role = minterRole evm → a = minter) :
    Deployed evm admin minter ((vendored env).grantRole s role a) := by
  have hgrant : (vendored env).grantRole s role a = s.setRole role a true := by
    change (s.internalGrantRole role a).getD s = _
    rw [AccessState.internalGrantRole_of_ne hrole]
    rfl
  rw [hgrant]
  refine ⟨h.sound.setRole hrole a true, h.admin, h.nobody, fun b hb => ?_⟩
  rw [AccessState.setRole_hasRole] at hb
  split at hb
  · next hboth => exact hboth.2.trans (hminter hboth.1.symm)
  · exact h.minter b hb

theorem deploy_deployed {evm : Evm} {tokenName tokenSymbol : Bytes}
    {initialAdmin initialMinter initialPauser : Address} {s : WrappedCryptEX (vendored env)}
    (hroles : DistinctRoles evm) (h : deploy (vendored env) evm tokenName tokenSymbol initialAdmin
      initialMinter initialPauser = some s) :
    Deployed evm initialAdmin initialMinter s.access := by
  rw [deploy] at h
  cases hinit : (vendored env).initialAccess defaultAdminTransferDelay initialAdmin with
  | none =>
      rw [hinit] at h
      cases h
  | some access =>
      rw [hinit] at h
      obtain ⟨hsound, hadmin, hnobody, hnone⟩ := sound_init hinit
      have hstart : Deployed evm initialAdmin initialMinter access :=
        ⟨hsound, hadmin, hnobody, fun a ha => by
          rw [hnone _ a hroles.minter] at ha
          cases ha⟩
      have hne : pauserRole evm = minterRole evm → False := fun heq => hroles.ne heq.symm
      have hpauser : ∀ {s : AccessState} {a : Address}, Deployed evm initialAdmin initialMinter s →
          Deployed evm initialAdmin initialMinter
            ((vendored env).grantRole s (pauserRole evm) a) :=
        fun hs => hs.grant hroles.pauser fun heq => (hne heq).elim
      have hminter : ∀ {s : AccessState}, Deployed evm initialAdmin initialMinter s →
          Deployed evm initialAdmin initialMinter
            ((vendored env).grantRole s (minterRole evm) initialMinter) :=
        fun hs => hs.grant hroles.minter fun _ => rfl
      simp only at h
      split at h
      · cases h
      · cases h
        simp only
        split <;> split
        · exact hpauser (hminter (hpauser hstart))
        · exact hpauser (hpauser hstart)
        · exact hminter (hpauser hstart)
        · exact hpauser hstart

/-- Where a fact about the roles comes from in a run of the token. -/
theorem access_origin {Fact : AccessState → Prop} {Cause : AccessState → Address → AccessCall → Prop}
    (hstep : ∀ {now sender s c s'}, AccessState.Sound s → AccessState.Change now sender s c s' →
      Fact s' → Fact s ∨ Cause s sender c)
    {s₀ : WrappedCryptEX (vendored env)} (hsound : AccessState.Sound s₀.access)
    (entries : List (TokenEntry (vendored env)))
    (hfact : Fact (entries.foldl (step env.evm) s₀).access) :
    Fact s₀.access ∨ ∃ v ∈ visits (step env.evm) s₀ entries, ∃ now c,
      v.2.call = .access (now, c) ∧ Cause v.1.access v.2.sender c := by
  have hone : ∀ (s : WrappedCryptEX (vendored env)) (e : TokenEntry (vendored env)),
      AccessState.Sound s.access → Fact (s.step env.evm e).access →
      Fact s.access ∨ ∃ now c, e.call = .access (now, c) ∧ Cause s.access e.sender c := by
    intro s e hs hfact
    obtain heq | ⟨now, c, hcall, haccess⟩ := access_step s e
    · exact .inl (heq ▸ hfact)
    · exact (hstep hs (AccessState.call_change haccess) hfact).imp_right fun hcause =>
        ⟨now, c, hcall, hcause⟩
  have hinv : ∀ (s : WrappedCryptEX (vendored env)) e, AccessState.Sound s.access →
      AccessState.Sound (s.step env.evm e).access := sound_step
  exact @origin _ _ (step env.evm) (fun s => AccessState.Sound s.access) (fun s => Fact s.access)
    (fun s e => ∃ now c, e.call = .access (now, c) ∧ Cause s.access e.sender c) hinv hone entries
    s₀ hsound hfact

/-- The token keeps at most one default admin. Whoever it is was so from the start,
or was chosen by the default admin of some time and has accepted. -/
theorem defaultAdmin_origin {tokenName tokenSymbol : Bytes}
    {initialAdmin initialMinter initialPauser : Address} {s₀ : WrappedCryptEX (vendored env)}
    (hroles : DistinctRoles env.evm) (hdeploy : deploy (vendored env) env.evm tokenName tokenSymbol
      initialAdmin initialMinter initialPauser = some s₀)
    (entries : List (TokenEntry (vendored env))) {a : Address}
    (ha : (vendored env).hasRole (entries.foldl (step env.evm) s₀).access defaultAdminRole a = true) :
    a = AccessState.currentDefaultAdmin (entries.foldl (step env.evm) s₀).access ∧
      (a = initialAdmin ∨
        (∃ v ∈ visits (step env.evm) s₀ entries, ∃ now,
          v.2.call = .access (now, .beginDefaultAdminTransfer a) ∧
            v.2.sender = AccessState.currentDefaultAdmin v.1.access) ∧
        ∃ v ∈ visits (step env.evm) s₀ entries, ∃ now,
          v.2.call = .access (now, .acceptDefaultAdminTransfer) ∧ v.2.sender = a) := by
  obtain ⟨hsound, hadmin, hnobody, -⟩ := deploy_deployed hroles hdeploy
  have hinv : ∀ (s : WrappedCryptEX (vendored env)) e, AccessState.Sound s.access →
      AccessState.Sound (s.step env.evm e).access := sound_step
  have hend := foldl_invariant hinv entries hsound
  obtain ⟨hcurrent, hne⟩ := (hend.admin_iff a).mp ha
  refine ⟨hcurrent, ?_⟩
  by_cases hinitial : a = initialAdmin
  · exact .inl hinitial
  · have hchosen := access_origin
      (fun hs hchange => AccessState.Sound.nominee_origin hs hne hchange) hsound entries
      (.inl hcurrent.symm)
    have haccepted := access_origin
      (fun _ hchange => AccessState.currentDefaultAdmin_origin hne hchange) hsound entries
      hcurrent.symm
    refine .inr ⟨?_, ?_⟩
    · obtain hstart | ⟨v, hv, now, c, hcall, rfl, hsender⟩ := hchosen
      · rw [hadmin, hnobody] at hstart
        exact absurd (hstart.resolve_right (Ne.symm hne)).symm hinitial
      · exact ⟨v, hv, now, hcall, hsender⟩
    · obtain hstart | ⟨v, hv, now, c, hcall, rfl, hsender⟩ := haccepted
      · exact absurd (hstart.symm.trans hadmin) hinitial
      · exact ⟨v, hv, now, hcall, hsender⟩

/-- Whoever mints is the minter of the deployment, or was made one by the default
admin of some earlier time. -/
theorem minter_origin {tokenName tokenSymbol : Bytes}
    {initialAdmin initialMinter initialPauser : Address} {s₀ : WrappedCryptEX (vendored env)}
    (hroles : DistinctRoles env.evm) (hdeploy : deploy (vendored env) env.evm tokenName tokenSymbol
      initialAdmin initialMinter initialPauser = some s₀)
    (entries : List (TokenEntry (vendored env))) (e : TokenEntry (vendored env))
    {depositId nativeTxId : Hash256} {recipient operator : Address} {amount : UInt256}
    {nativeSender : Bytes}
    (hmint : .bridgeMintRecorded depositId nativeTxId recipient amount nativeSender operator ∈
      ((entries.foldl (step env.evm) s₀).after env.evm e.sender e.call).2) :
    operator = e.sender ∧ (operator = initialMinter ∨
      ∃ v ∈ visits (step env.evm) s₀ entries, ∃ now,
        v.2.call = .access (now, .grantRole (minterRole env.evm) operator) ∧
          v.2.sender = AccessState.currentDefaultAdmin v.1.access) := by
  obtain ⟨hsound, -, -, hminter⟩ := deploy_deployed hroles hdeploy
  obtain ⟨rfl, hrole⟩ := minted_by hmint
  refine ⟨rfl, ?_⟩
  obtain hstart | ⟨v, hv, now, c, hcall, rfl, hsender⟩ := access_origin
    (fun hs hchange => AccessState.Sound.hasRole_origin hs hroles.minter hchange) hsound entries
    hrole
  · exact .inl (hminter _ hstart)
  · exact .inr ⟨v, hv, now, hcall, hsender⟩

/-! ### A sample -/

def sampleEnv : PermitEnv := ⟨sampleEvm, ascii "Wrapped CryptEX", fun _ _ _ _ => 0⟩

theorem one_ne : (1 : Address) ≠ 0 := by decide

theorem four_ne : (4 : Address) ≠ 0 := by decide

/-- The admin 1 makes 4 a minter and hands over to 4. -/
def sampleEntries : List (TokenEntry (vendored sampleEnv)) :=
  [⟨1, one_ne, .access (50, .grantRole (minterRole sampleEvm) 4)⟩,
    ⟨1, one_ne, .access (100, .beginDefaultAdminTransfer 4)⟩,
    ⟨4, four_ne, .access (200000, .acceptDefaultAdminTransfer)⟩]

def sampleMinting : TokenEntry (vendored sampleEnv) :=
  ⟨4, four_ne, .mintFromBridge 5 30000000000 7 8 []⟩

theorem distinctRoles_sample : DistinctRoles sampleEnv.evm :=
  ⟨by decide, by decide, by decide⟩

theorem sample_run : ∃ s₀, deploy (vendored sampleEnv) sampleEnv.evm (ascii "Wrapped CryptEX")
      (ascii "wCRX") 1 2 3 = some s₀ ∧
    (vendored sampleEnv).hasRole (sampleEntries.foldl (step sampleEnv.evm) s₀).access
      defaultAdminRole 4 = true ∧
    .bridgeMintRecorded 7 8 5 30000000000 [] 4 ∈ ((sampleEntries.foldl (step sampleEnv.evm)
      s₀).after sampleEnv.evm sampleMinting.sender sampleMinting.call).2 := by
  have hrun : ((deploy (vendored sampleEnv) sampleEnv.evm (ascii "Wrapped CryptEX") (ascii "wCRX")
      1 2 3).map fun s =>
        ((vendored sampleEnv).hasRole (sampleEntries.foldl (step sampleEnv.evm) s).access
          defaultAdminRole 4,
        ((sampleEntries.foldl (step sampleEnv.evm) s).after sampleEnv.evm sampleMinting.sender
          sampleMinting.call).2)) = some (true, [.bridgeMintRecorded 7 8 5 30000000000 [] 4]) := by
    decide
  obtain ⟨s, hs, hpair⟩ := Option.map_eq_some_iff.mp hrun
  obtain ⟨hadmin, hevents⟩ := Prod.mk.inj hpair
  exact ⟨s, hs, hadmin, hevents ▸ List.mem_singleton_self _⟩

theorem defaultAdmin_origin_four : ∃ s₀,
    4 = AccessState.currentDefaultAdmin (sampleEntries.foldl (step sampleEnv.evm) s₀).access ∧
      ((4 : Address) = 1 ∨
        (∃ v ∈ visits (step sampleEnv.evm) s₀ sampleEntries, ∃ now,
          v.2.call = .access (now, .beginDefaultAdminTransfer 4) ∧
            v.2.sender = AccessState.currentDefaultAdmin v.1.access) ∧
        ∃ v ∈ visits (step sampleEnv.evm) s₀ sampleEntries, ∃ now,
          v.2.call = .access (now, .acceptDefaultAdminTransfer) ∧ v.2.sender = 4) := by
  obtain ⟨s₀, hdeploy, hadmin, -⟩ := sample_run
  exact ⟨s₀, defaultAdmin_origin distinctRoles_sample hdeploy sampleEntries hadmin⟩

theorem minter_origin_four : ∃ s₀, (4 : Address) = sampleMinting.sender ∧ ((4 : Address) = 2 ∨
    ∃ v ∈ visits (step sampleEnv.evm) s₀ sampleEntries, ∃ now,
      v.2.call = .access (now, .grantRole (minterRole sampleEnv.evm) 4) ∧
        v.2.sender = AccessState.currentDefaultAdmin v.1.access) := by
  obtain ⟨s₀, hdeploy, -, hmint⟩ := sample_run
  exact ⟨s₀, minter_origin distinctRoles_sample hdeploy sampleEntries sampleMinting hmint⟩

end Roles

end WrappedCryptEX

end Cryptex.Bridge
