import Cryptex.Bridge.Contract

/-!
# Roles and the default admin

`AccessControl.sol` and `AccessControlDefaultAdminRules.sol` under
`evm/lib/openzeppelin-contracts`. A value of type `uint48` is a number, and where
the source computes one the overflow reverts. The events of these contracts are
left out.

The default admin is handed over in two steps with a delay between them, and the
delay itself changes with a delay. Whatever the admin does, until `earliestChange`
nobody else becomes the admin.
-/

namespace Cryptex.Bridge

structure AccessState where
  hasRole : Hash256 → Address → Bool
  roleAdmin : Hash256 → Hash256
  pendingDefaultAdmin : Address
  /-- 0 when there is none. -/
  pendingDefaultAdminSchedule : Nat
  currentDelay : Nat
  currentDefaultAdmin : Address
  pendingDelay : Nat
  /-- 0 when there is none. -/
  pendingDelaySchedule : Nat

/-- The external functions that change the state. -/
inductive AccessCall where
  | grantRole (role : Hash256) (account : Address)
  | revokeRole (role : Hash256) (account : Address)
  | renounceRole (role : Hash256) (account : Address)
  | beginDefaultAdminTransfer (newAdmin : Address)
  | cancelDefaultAdminTransfer
  | acceptDefaultAdminTransfer
  | changeDefaultAdminDelay (newDelay : BitVec 48)
  | rollbackDefaultAdminDelay

/-- `SafeCast.toUint48(block.timestamp) + wait`. -/
def schedule48 (now wait : Nat) : Option Nat :=
  if now < 2 ^ 48 ∧ now + wait < 2 ^ 48 then some (now + wait) else none

/-- 5 days. -/
def defaultAdminDelayIncreaseWait : Nat := 432000

namespace AccessState

variable (now : Nat) (sender : Address) (s : AccessState)

def setRole (role : Hash256) (account : Address) (value : Bool) : AccessState :=
  { s with
    hasRole := fun r a => if r = role ∧ a = account then value else s.hasRole r a }

/-- `_grantRole`. -/
def internalGrantRole (role : Hash256) (account : Address) : Option AccessState :=
  if role = defaultAdminRole then
    if s.currentDefaultAdmin ≠ 0 then none
    else some ({ s with currentDefaultAdmin := account }.setRole role account true)
  else some (s.setRole role account true)

/-- `_revokeRole`. -/
def internalRevokeRole (role : Hash256) (account : Address) : AccessState :=
  let s :=
    if role = defaultAdminRole ∧ account = s.currentDefaultAdmin then
      { s with currentDefaultAdmin := 0 }
    else s
  s.setRole role account false

/-- The constructor. -/
def init (initialDelay : Nat) (initialDefaultAdmin : Address) : Option AccessState :=
  if initialDefaultAdmin = 0 then none
  else
    internalGrantRole
      { hasRole := fun _ _ => false
        roleAdmin := fun _ => 0
        pendingDefaultAdmin := 0
        pendingDefaultAdminSchedule := 0
        currentDelay := initialDelay
        currentDefaultAdmin := 0
        pendingDelay := 0
        pendingDelaySchedule := 0 }
      defaultAdminRole initialDefaultAdmin

def hasSchedulePassed (schedule : Nat) : Bool := schedule < now

def defaultAdminDelay : Nat :=
  if s.pendingDelaySchedule ≠ 0 ∧ hasSchedulePassed now s.pendingDelaySchedule then s.pendingDelay
  else s.currentDelay

/-- `_delayChangeWait`. -/
def delayChangeWait (newDelay : Nat) : Nat :=
  if newDelay > s.defaultAdminDelay now then min newDelay defaultAdminDelayIncreaseWait
  else s.defaultAdminDelay now - newDelay

/-- `_setPendingDefaultAdmin`. -/
def setPendingDefaultAdmin (newAdmin : Address) (newSchedule : Nat) : AccessState :=
  { s with pendingDefaultAdmin := newAdmin, pendingDefaultAdminSchedule := newSchedule }

/-- `_setPendingDelay`: a delay that was due becomes the current one. -/
def setPendingDelay (newDelay newSchedule : Nat) : AccessState :=
  { s with
    currentDelay := s.defaultAdminDelay now
    pendingDelay := newDelay
    pendingDelaySchedule := newSchedule }

def onlyRole (role : Hash256) (body : Option AccessState) : Option AccessState :=
  if s.hasRole role sender then body else none

def grantRole (role : Hash256) (account : Address) : Option AccessState :=
  if role = defaultAdminRole then none
  else s.onlyRole sender (s.roleAdmin role) (s.internalGrantRole role account)

def revokeRole (role : Hash256) (account : Address) : Option AccessState :=
  if role = defaultAdminRole then none
  else s.onlyRole sender (s.roleAdmin role) (some (s.internalRevokeRole role account))

/-- The default admin renounces in two steps as well, the zero address being the
next admin. -/
def renounceRole (role : Hash256) (account : Address) : Option AccessState :=
  let checked :=
    if role = defaultAdminRole ∧ account = s.currentDefaultAdmin then
      if s.pendingDefaultAdmin ≠ 0 ∨ s.pendingDefaultAdminSchedule = 0 ∨
          !hasSchedulePassed now s.pendingDefaultAdminSchedule then none
      else some { s with pendingDefaultAdminSchedule := 0 }
    else some s
  checked.bind fun s => if account ≠ sender then none else some (s.internalRevokeRole role account)

def beginDefaultAdminTransfer (newAdmin : Address) : Option AccessState :=
  s.onlyRole sender defaultAdminRole
    ((schedule48 now (s.defaultAdminDelay now)).map (s.setPendingDefaultAdmin newAdmin))

def acceptDefaultAdminTransfer : Option AccessState :=
  if sender ≠ s.pendingDefaultAdmin then none
  else if s.pendingDefaultAdminSchedule = 0 ∨
      !hasSchedulePassed now s.pendingDefaultAdminSchedule then none
  else
    ((s.internalRevokeRole defaultAdminRole s.currentDefaultAdmin).internalGrantRole
      defaultAdminRole s.pendingDefaultAdmin).map fun s => s.setPendingDefaultAdmin 0 0

def changeDefaultAdminDelay (newDelay : Nat) : Option AccessState :=
  s.onlyRole sender defaultAdminRole
    ((schedule48 now (s.delayChangeWait now newDelay)).map (s.setPendingDelay now newDelay))

/-- One call at the time `now`; `none` when it reverts. -/
def call : AccessCall → Option AccessState
  | .grantRole role account => s.grantRole sender role account
  | .revokeRole role account => s.revokeRole sender role account
  | .renounceRole role account => s.renounceRole now sender role account
  | .beginDefaultAdminTransfer newAdmin => s.beginDefaultAdminTransfer now sender newAdmin
  | .cancelDefaultAdminTransfer =>
      s.onlyRole sender defaultAdminRole (some (s.setPendingDefaultAdmin 0 0))
  | .acceptDefaultAdminTransfer => s.acceptDefaultAdminTransfer now sender
  | .changeDefaultAdminDelay newDelay => s.changeDefaultAdminDelay now sender newDelay.toNat
  | .rollbackDefaultAdminDelay =>
      s.onlyRole sender defaultAdminRole (some (s.setPendingDelay now 0 0))

/-! ## What a call can do -/

variable {now sender} {s} {s' : AccessState}

theorem onlyRole_eq_some {role : Hash256} {body : Option AccessState}
    (h : s.onlyRole sender role body = some s') : s.hasRole role sender = true ∧ body = some s' := by
  rw [onlyRole] at h
  split at h
  · next hrole => exact ⟨hrole, h⟩
  · cases h

theorem internalGrantRole_of_ne {role : Hash256} {account : Address} (h : role ≠ defaultAdminRole) :
    s.internalGrantRole role account = some (s.setRole role account true) := by
  rw [internalGrantRole, if_neg h]

theorem internalGrantRole_admin {account : Address} (h : s.currentDefaultAdmin = 0) :
    s.internalGrantRole defaultAdminRole account =
      some ({ s with currentDefaultAdmin := account }.setRole defaultAdminRole account true) := by
  rw [internalGrantRole, if_pos rfl, if_neg (not_not.mpr h)]

theorem schedule48_eq_some {wait schedule : Nat} (h : schedule48 now wait = some schedule) :
    schedule = now + wait := by
  rw [schedule48] at h
  split at h
  · cases h
    rfl
  · cases h

/-- What a call that does not revert changes. -/
inductive Change (now : Nat) (sender : Address) (s : AccessState) :
    AccessCall → AccessState → Prop where
  | granted {role account} : role ≠ defaultAdminRole → s.hasRole (s.roleAdmin role) sender = true →
      Change now sender s (.grantRole role account) (s.setRole role account true)
  | revoked {role account} : role ≠ defaultAdminRole → s.hasRole (s.roleAdmin role) sender = true →
      Change now sender s (.revokeRole role account) (s.setRole role account false)
  /-- A role is given up that is not the admin's. -/
  | renounced {role} : ¬ (role = defaultAdminRole ∧ sender = s.currentDefaultAdmin) →
      Change now sender s (.renounceRole role sender) (s.setRole role sender false)
  /-- The admin leaves after a transfer to the zero address was due. -/
  | left : sender = s.currentDefaultAdmin → s.pendingDefaultAdmin = 0 →
      s.pendingDefaultAdminSchedule ≠ 0 → s.pendingDefaultAdminSchedule < now →
      Change now sender s (.renounceRole defaultAdminRole sender)
        ({ s with pendingDefaultAdminSchedule := 0, currentDefaultAdmin := 0 }.setRole
          defaultAdminRole sender false)
  | began {newAdmin} : s.hasRole defaultAdminRole sender = true →
      Change now sender s (.beginDefaultAdminTransfer newAdmin)
        (s.setPendingDefaultAdmin newAdmin (now + s.defaultAdminDelay now))
  | cancelled : s.hasRole defaultAdminRole sender = true →
      Change now sender s .cancelDefaultAdminTransfer (s.setPendingDefaultAdmin 0 0)
  | accepted : sender = s.pendingDefaultAdmin → s.pendingDefaultAdminSchedule ≠ 0 →
      s.pendingDefaultAdminSchedule < now →
      Change now sender s .acceptDefaultAdminTransfer
        ((({ s with currentDefaultAdmin := sender }.setRole defaultAdminRole
          s.currentDefaultAdmin false).setRole defaultAdminRole sender true).setPendingDefaultAdmin
            0 0)
  | delayed {newDelay : BitVec 48} : s.hasRole defaultAdminRole sender = true →
      Change now sender s (.changeDefaultAdminDelay newDelay)
        (s.setPendingDelay now newDelay.toNat (now + s.delayChangeWait now newDelay.toNat))
  | rolledBack : s.hasRole defaultAdminRole sender = true →
      Change now sender s .rollbackDefaultAdminDelay (s.setPendingDelay now 0 0)

theorem not_passed {schedule : Nat}
    (h : ¬ (schedule = 0 ∨ (!hasSchedulePassed now schedule) = true)) :
    schedule ≠ 0 ∧ schedule < now := by
  refine ⟨fun h0 => h (.inl h0), ?_⟩
  by_contra hle
  exact h (.inr (by rw [hasSchedulePassed, decide_eq_false hle]; rfl))

theorem renounceRole_change {role : Hash256} {account : Address}
    (h : s.renounceRole now sender role account = some s') :
    Change now sender s (.renounceRole role account) s' := by
  rw [renounceRole] at h
  by_cases hadmin : role = defaultAdminRole ∧ account = s.currentDefaultAdmin
  · rw [if_pos hadmin] at h
    split at h
    · cases h
    · next hdue =>
        rw [Option.bind_some] at h
        split at h
        · cases h
        · next hsender =>
            cases h
            obtain rfl := not_not.mp hsender
            obtain ⟨rfl, hadmin⟩ := hadmin
            obtain ⟨hnobody, hdue⟩ := not_or.mp hdue
            obtain ⟨hset, hpassed⟩ := not_passed hdue
            rw [internalRevokeRole, if_pos ⟨rfl, hadmin⟩]
            exact .left hadmin (not_not.mp hnobody) hset hpassed
  · rw [if_neg hadmin, Option.bind_some] at h
    split at h
    · cases h
    · next hsender =>
        cases h
        obtain rfl := not_not.mp hsender
        rw [internalRevokeRole, if_neg hadmin]
        exact .renounced hadmin

theorem acceptDefaultAdminTransfer_change (h : s.acceptDefaultAdminTransfer now sender = some s') :
    Change now sender s .acceptDefaultAdminTransfer s' := by
  rw [acceptDefaultAdminTransfer] at h
  split at h
  · cases h
  · next hsender =>
      obtain rfl := not_not.mp hsender
      split at h
      · cases h
      · next hdue =>
          obtain ⟨hset, hpassed⟩ := not_passed hdue
          have hnobody :
              (s.internalRevokeRole defaultAdminRole s.currentDefaultAdmin).currentDefaultAdmin =
                0 := by
            rw [internalRevokeRole, if_pos ⟨rfl, rfl⟩]
            rfl
          rw [internalGrantRole_admin hnobody, internalRevokeRole, if_pos ⟨rfl, rfl⟩] at h
          cases h
          exact .accepted rfl hset hpassed

theorem call_change {c : AccessCall} (h : s.call now sender c = some s') :
    Change now sender s c s' := by
  cases c with
  | grantRole role account =>
      rw [call, grantRole] at h
      split at h
      · cases h
      · next hrole =>
          obtain ⟨hadmin, h⟩ := onlyRole_eq_some h
          rw [internalGrantRole_of_ne hrole] at h
          cases h
          exact .granted hrole hadmin
  | revokeRole role account =>
      rw [call, revokeRole] at h
      split at h
      · cases h
      · next hrole =>
          obtain ⟨hadmin, h⟩ := onlyRole_eq_some h
          rw [internalRevokeRole, if_neg fun hboth => hrole hboth.1] at h
          cases h
          exact .revoked hrole hadmin
  | renounceRole role account => exact renounceRole_change h
  | beginDefaultAdminTransfer newAdmin =>
      obtain ⟨hadmin, h⟩ := onlyRole_eq_some h
      obtain ⟨schedule, hschedule, rfl⟩ := Option.map_eq_some_iff.mp h
      obtain rfl := schedule48_eq_some hschedule
      exact .began hadmin
  | cancelDefaultAdminTransfer =>
      obtain ⟨hadmin, h⟩ := onlyRole_eq_some h
      cases h
      exact .cancelled hadmin
  | acceptDefaultAdminTransfer => exact acceptDefaultAdminTransfer_change h
  | changeDefaultAdminDelay newDelay =>
      obtain ⟨hadmin, h⟩ := onlyRole_eq_some h
      obtain ⟨schedule, hschedule, rfl⟩ := Option.map_eq_some_iff.mp h
      obtain rfl := schedule48_eq_some hschedule
      exact .delayed hadmin
  | rollbackDefaultAdminDelay =>
      obtain ⟨hadmin, h⟩ := onlyRole_eq_some h
      cases h
      exact .rolledBack hadmin

/-! ## Who has a role -/

/-- At most one account has the admin's role: the default admin. Every role is
granted and revoked by it. -/
structure Sound (s : AccessState) : Prop where
  admin_iff : ∀ a, s.hasRole defaultAdminRole a = true ↔ a = s.currentDefaultAdmin ∧ a ≠ 0
  roleAdmin : ∀ role, s.roleAdmin role = defaultAdminRole

theorem setRole_hasRole (s : AccessState) (role r : Hash256) (account a : Address) (value : Bool) :
    (s.setRole role account value).hasRole r a =
      if r = role ∧ a = account then value else s.hasRole r a := rfl

theorem setRole_hasRole_of_ne {role r : Hash256} (h : r ≠ role) (account a : Address)
    (value : Bool) : (s.setRole role account value).hasRole r a = s.hasRole r a :=
  if_neg fun hboth => h hboth.1

theorem Sound.setRole {role : Hash256} (h : s.Sound) (hrole : role ≠ defaultAdminRole)
    (account : Address) (value : Bool) : (s.setRole role account value).Sound where
  admin_iff a := by
    rw [setRole_hasRole_of_ne (Ne.symm hrole)]
    exact h.admin_iff a
  roleAdmin := h.roleAdmin

theorem Sound.change {c : AccessCall} (h : s.Sound) (hsender : sender ≠ 0)
    (hchange : Change now sender s c s') : s'.Sound := by
  cases hchange with
  | granted hrole => exact h.setRole hrole _ _
  | revoked hrole => exact h.setRole hrole _ _
  | renounced hother =>
      rename_i role
      by_cases hrole : role = defaultAdminRole
      · refine ⟨fun a => ?_, h.roleAdmin⟩
        rw [setRole_hasRole]
        split
        · next hboth =>
            have hne : a ≠ s.currentDefaultAdmin := fun heq =>
              hother ⟨hrole, hboth.2.symm.trans heq⟩
            exact iff_of_false Bool.false_ne_true fun hand => hne hand.1
        · exact h.admin_iff a
      · exact h.setRole hrole _ _
  | left hadmin =>
      refine ⟨fun a => ?_, h.roleAdmin⟩
      rw [setRole_hasRole]
      split
      · exact iff_of_false Bool.false_ne_true fun hand => hand.2 hand.1
      · next hother =>
          refine iff_of_false (fun hrole => hother ⟨rfl, ?_⟩) fun hand => hand.2 hand.1
          rw [hadmin]
          exact ((h.admin_iff a).mp hrole).1
  | began => exact ⟨h.admin_iff, h.roleAdmin⟩
  | cancelled => exact ⟨h.admin_iff, h.roleAdmin⟩
  | accepted =>
      refine ⟨fun a => ?_, h.roleAdmin⟩
      change (if defaultAdminRole = defaultAdminRole ∧ a = sender then true
        else if defaultAdminRole = defaultAdminRole ∧ a = s.currentDefaultAdmin then false
        else s.hasRole defaultAdminRole a) = true ↔ a = sender ∧ a ≠ 0
      by_cases ha : a = sender
      · rw [if_pos ⟨rfl, ha⟩]
        exact iff_of_true rfl ⟨ha, fun h0 => hsender (ha.symm.trans h0)⟩
      · rw [if_neg fun hand => ha hand.2]
        refine iff_of_false (fun hrole => ?_) fun hand => ha hand.1
        split at hrole
        · cases hrole
        · next hold => exact hold ⟨rfl, ((h.admin_iff a).mp hrole).1⟩
  | delayed => exact ⟨h.admin_iff, h.roleAdmin⟩
  | rolledBack => exact ⟨h.admin_iff, h.roleAdmin⟩

/-- A role is granted by the default admin. -/
theorem Sound.hasRole_origin {c : AccessCall} {role : Hash256} {a : Address} (h : s.Sound)
    (hrole : role ≠ defaultAdminRole) (hchange : Change now sender s c s')
    (hhas : s'.hasRole role a = true) :
    s.hasRole role a = true ∨ c = .grantRole role a ∧ sender = s.currentDefaultAdmin := by
  have hset : ∀ {t : AccessState} {r : Hash256} {account : Address} {value : Bool},
      t.hasRole role a = s.hasRole role a → (t.setRole r account value).hasRole role a = true →
      s.hasRole role a = true ∨ role = r ∧ a = account ∧ value = true := by
    intro t r account value ht hhas
    rw [setRole_hasRole] at hhas
    split at hhas
    · next hboth => exact .inr ⟨hboth.1, hboth.2, hhas⟩
    · exact .inl (ht ▸ hhas)
  cases hchange with
  | granted _ hadmin =>
      obtain hold | ⟨rfl, rfl, -⟩ := hset rfl hhas
      · exact .inl hold
      · rw [h.roleAdmin] at hadmin
        exact .inr ⟨rfl, ((h.admin_iff sender).mp hadmin).1⟩
  | revoked => exact (hset rfl hhas).imp_right fun hnew => absurd hnew.2.2 Bool.false_ne_true
  | renounced => exact (hset rfl hhas).imp_right fun hnew => absurd hnew.2.2 Bool.false_ne_true
  | left => exact (hset rfl hhas).imp_right fun hnew => absurd hnew.2.2 Bool.false_ne_true
  | began => exact .inl hhas
  | cancelled => exact .inl hhas
  | accepted =>
      refine .inl ?_
      rw [setPendingDefaultAdmin, setRole_hasRole_of_ne hrole, setRole_hasRole_of_ne hrole] at hhas
      exact hhas
  | delayed => exact .inl hhas
  | rolledBack => exact .inl hhas

/-- An account becomes the admin, or is to become it, because the admin chose it. -/
theorem Sound.nominee_origin {c : AccessCall} {a : Address} (h : s.Sound) (ha : a ≠ 0)
    (hchange : Change now sender s c s')
    (hnominee : s'.currentDefaultAdmin = a ∨ s'.pendingDefaultAdmin = a) :
    (s.currentDefaultAdmin = a ∨ s.pendingDefaultAdmin = a) ∨
      c = .beginDefaultAdminTransfer a ∧ sender = s.currentDefaultAdmin := by
  cases hchange with
  | granted => exact .inl hnominee
  | revoked => exact .inl hnominee
  | renounced => exact .inl hnominee
  | left =>
      obtain hadmin | hpending := hnominee
      · exact absurd hadmin.symm ha
      · exact .inl (.inr hpending)
  | began hadmin =>
      obtain hcurrent | hpending := hnominee
      · exact .inl (.inl hcurrent)
      · obtain rfl := hpending
        exact .inr ⟨rfl, ((h.admin_iff sender).mp hadmin).1⟩
  | cancelled =>
      obtain hcurrent | hpending := hnominee
      · exact .inl (.inl hcurrent)
      · exact absurd hpending.symm ha
  | accepted hsender =>
      obtain hcurrent | hpending := hnominee
      · exact .inl (.inr (hsender ▸ hcurrent))
      · exact absurd hpending.symm ha
  | delayed => exact .inl hnominee
  | rolledBack => exact .inl hnominee

/-- An account becomes the admin because it wants to. -/
theorem currentDefaultAdmin_origin {c : AccessCall} {a : Address} (ha : a ≠ 0)
    (hchange : Change now sender s c s') (hadmin : s'.currentDefaultAdmin = a) :
    s.currentDefaultAdmin = a ∨ c = .acceptDefaultAdminTransfer ∧ sender = a := by
  cases hchange with
  | left => exact absurd hadmin.symm ha
  | accepted => exact .inr ⟨rfl, hadmin⟩
  | granted => exact .inl hadmin
  | revoked => exact .inl hadmin
  | renounced => exact .inl hadmin
  | began => exact .inl hadmin
  | cancelled => exact .inl hadmin
  | delayed => exact .inl hadmin
  | rolledBack => exact .inl hadmin

/-! ## The delay of a handover -/

/-- The latest time until which nobody else becomes the admin, seen from `now`: a
handover that is announced waits for its schedule, one announced later for the
delay, and a shorter delay for the change of the delay. -/
def earliestChange (now : Nat) (s : AccessState) : Nat :=
  let announcedLater :=
    if s.pendingDelaySchedule ≠ 0 ∧ ¬ hasSchedulePassed now s.pendingDelaySchedule then
      min (now + s.currentDelay) (s.pendingDelaySchedule + s.pendingDelay + 1)
    else now + s.defaultAdminDelay now
  if s.pendingDefaultAdminSchedule ≠ 0 then min s.pendingDefaultAdminSchedule announcedLater
  else announcedLater

/-- No way to a handover before `limit`: not by the one that is announced, not by
one announced now, not by one after the announced change of the delay. -/
structure Held (limit now : Nat) (s : AccessState) : Prop where
  announced : s.pendingDefaultAdminSchedule ≠ 0 → limit ≤ s.pendingDefaultAdminSchedule
  delay : limit ≤ now + s.defaultAdminDelay now
  change : s.pendingDelaySchedule ≠ 0 → ¬ s.pendingDelaySchedule < now →
    limit ≤ s.pendingDelaySchedule + s.pendingDelay + 1

theorem defaultAdminDelay_of_passed (hset : s.pendingDelaySchedule ≠ 0)
    (hpassed : s.pendingDelaySchedule < now) : s.defaultAdminDelay now = s.pendingDelay :=
  if_pos ⟨hset, decide_eq_true hpassed⟩

theorem defaultAdminDelay_of_not_passed (h : ¬ s.pendingDelaySchedule < now) :
    s.defaultAdminDelay now = s.currentDelay :=
  if_neg fun hboth => h (of_decide_eq_true hboth.2)

theorem defaultAdminDelay_of_unset (h : s.pendingDelaySchedule = 0) :
    s.defaultAdminDelay now = s.currentDelay :=
  if_neg fun hboth => hboth.1 h

theorem held_earliestChange (now : Nat) (s : AccessState) : Held (s.earliestChange now) now s := by
  rw [earliestChange]
  by_cases hpending : s.pendingDelaySchedule ≠ 0 ∧ ¬ hasSchedulePassed now s.pendingDelaySchedule
  · have hnot : ¬ s.pendingDelaySchedule < now := fun hlt => hpending.2 (decide_eq_true hlt)
    rw [if_pos hpending]
    refine ⟨fun h => ?_, ?_, fun _ _ => ?_⟩
    · rw [if_pos h]
      exact min_le_left _ _
    · rw [defaultAdminDelay_of_not_passed hnot]
      split <;> omega
    · split <;> omega
  · rw [if_neg hpending]
    refine ⟨fun h => ?_, ?_, fun hset hnot => ?_⟩
    · rw [if_pos h]
      exact min_le_left _ _
    · split
      · exact min_le_right _ _
      · exact Nat.le_refl _
    · exact absurd ⟨hset, fun hpassed => hnot (of_decide_eq_true hpassed)⟩ hpending

/-- Time goes on. -/
theorem Held.wait {limit later : Nat} (h : Held limit now s) (hle : now ≤ later) :
    Held limit later s where
  announced := h.announced
  delay := by
    by_cases hunset : s.pendingDelaySchedule = 0
    · have hdelay := h.delay
      rw [defaultAdminDelay_of_unset hunset] at hdelay ⊢
      omega
    · by_cases hpassed : s.pendingDelaySchedule < later
      · rw [defaultAdminDelay_of_passed hunset hpassed]
        by_cases hbefore : s.pendingDelaySchedule < now
        · have hdelay := h.delay
          rw [defaultAdminDelay_of_passed hunset hbefore] at hdelay
          omega
        · have hchange := h.change hunset hbefore
          omega
      · have hdelay := h.delay
        rw [defaultAdminDelay_of_not_passed fun hlt => hpassed (by omega)] at hdelay
        rw [defaultAdminDelay_of_not_passed hpassed]
        omega
  change hset hnot := h.change hset fun hlt => hnot (by omega)

/-- A change of the delay leaves the delay as it is for now. -/
theorem defaultAdminDelay_setPendingDelay {newDelay newSchedule : Nat}
    (h : ¬ newSchedule < now ∨ newSchedule = 0) :
    (s.setPendingDelay now newDelay newSchedule).defaultAdminDelay now =
      s.defaultAdminDelay now := by
  obtain hnot | hunset := h
  · exact defaultAdminDelay_of_not_passed (s := s.setPendingDelay now newDelay newSchedule) hnot
  · exact defaultAdminDelay_of_unset (s := s.setPendingDelay now newDelay newSchedule) hunset

/-- A new delay and the wait for it are together no shorter than the old one. -/
theorem le_delayChangeWait (now : Nat) (s : AccessState) (newDelay : Nat) :
    s.defaultAdminDelay now ≤ s.delayChangeWait now newDelay + newDelay := by
  rw [delayChangeWait]
  split <;> omega

/-- Before the limit a call changes the admin in no way, and the limit holds after
it as well. -/
theorem Held.call {limit : Nat} {c : AccessCall} (h : Held limit now s) (hnow : now ≤ limit)
    (hcall : s.call now sender c = some s') :
    Held limit now s' ∧ s'.currentDefaultAdmin = s.currentDefaultAdmin := by
  have hdelay := h.delay
  cases call_change hcall with
  | granted => exact ⟨⟨h.announced, h.delay, h.change⟩, rfl⟩
  | revoked => exact ⟨⟨h.announced, h.delay, h.change⟩, rfl⟩
  | renounced => exact ⟨⟨h.announced, h.delay, h.change⟩, rfl⟩
  | left _ _ hset hpassed => exact absurd (h.announced hset) (by omega)
  | accepted _ hset hpassed => exact absurd (h.announced hset) (by omega)
  | began => exact ⟨⟨fun _ => h.delay, h.delay, h.change⟩, rfl⟩
  | cancelled => exact ⟨⟨fun h0 => absurd rfl h0, h.delay, h.change⟩, rfl⟩
  | delayed =>
      rename_i newDelay _
      have hwait := le_delayChangeWait now s newDelay.toNat
      refine ⟨⟨h.announced, ?_, fun _ _ => ?_⟩, rfl⟩
      · rw [defaultAdminDelay_setPendingDelay (.inl (by omega))]
        exact h.delay
      · change limit ≤ now + s.delayChangeWait now newDelay.toNat + newDelay.toNat + 1
        omega
  | rolledBack =>
      refine ⟨⟨h.announced, ?_, fun h0 => absurd rfl h0⟩, rfl⟩
      rw [defaultAdminDelay_setPendingDelay (.inr rfl)]
      exact h.delay

end AccessState

/-! ## Runs -/

/-- A call with its time and caller. -/
structure AccessEntry where
  now : Nat
  sender : Address
  call : AccessCall

namespace AccessState

/-- The state after a call, whether it reverted or not. -/
def after (s : AccessState) (e : AccessEntry) : AccessState :=
  (s.call e.now e.sender e.call).getD s

def run (s : AccessState) (entries : List AccessEntry) : AccessState := entries.foldl after s

theorem Held.after {s : AccessState} {limit : Nat} {e : AccessEntry} (h : Held limit e.now s)
    (hnow : e.now ≤ limit) :
    Held limit e.now (s.after e) ∧ (s.after e).currentDefaultAdmin = s.currentDefaultAdmin := by
  rw [AccessState.after]
  cases hcall : s.call e.now e.sender e.call with
  | none => exact ⟨h, rfl⟩
  | some s' => exact h.call hnow hcall

theorem Held.run {limit : Nat} : ∀ {entries : List AccessEntry} {now : Nat} {s : AccessState},
    Held limit now s → (now :: entries.map AccessEntry.now).Pairwise (fun a b => a ≤ b) →
    (∀ e ∈ entries, e.now ≤ limit) →
    (s.run entries).currentDefaultAdmin = s.currentDefaultAdmin
  | [], _, _, _, _, _ => rfl
  | e :: rest, now, s, h, hsorted, hlimit => by
      rw [List.map_cons, List.pairwise_cons] at hsorted
      obtain ⟨hnow, hsorted⟩ := hsorted
      obtain ⟨hheld, hadmin⟩ :=
        (h.wait (hnow e.now List.mem_cons_self)).after (hlimit e List.mem_cons_self)
      rw [AccessState.run, List.foldl_cons, ← AccessState.run,
        hheld.run hsorted fun e' he' => hlimit e' (List.mem_cons_of_mem e he'), hadmin]

/-- Whatever is called until `earliestChange`, in whatever order and by whomever,
the default admin stays the same. -/
theorem defaultAdmin_stays {s : AccessState} {now : Nat} {entries : List AccessEntry}
    (hsorted : (now :: entries.map AccessEntry.now).Pairwise fun a b => a ≤ b)
    (hearly : ∀ e ∈ entries, e.now ≤ s.earliestChange now) :
    (s.run entries).currentDefaultAdmin = s.currentDefaultAdmin :=
  (held_earliestChange now s).run hsorted hearly

/-- A contract of the admin 5, two days of delay. -/
def exampleAccess : AccessState where
  hasRole r a := r = defaultAdminRole ∧ a = 5
  roleAdmin _ := 0
  pendingDefaultAdmin := 0
  pendingDefaultAdminSchedule := 0
  currentDelay := 172800
  currentDefaultAdmin := 5
  pendingDelay := 0
  pendingDelaySchedule := 0

/-- The admin 5 wants to hand over to 6 without delay. -/
def exampleEntries : List AccessEntry :=
  [⟨1000, 5, .changeDefaultAdminDelay 0⟩, ⟨2000, 5, .beginDefaultAdminTransfer 6⟩,
    ⟨173800, 6, .acceptDefaultAdminTransfer⟩]

theorem defaultAdmin_stays_five :
    (exampleAccess.run exampleEntries).currentDefaultAdmin = exampleAccess.currentDefaultAdmin := by
  have hsorted : (1000 :: exampleEntries.map AccessEntry.now).Pairwise fun a b => a ≤ b := by
    decide
  have hearly : ∀ e ∈ exampleEntries, e.now ≤ exampleAccess.earliestChange 1000 := by decide
  exact defaultAdmin_stays hsorted hearly

end AccessState

end Cryptex.Bridge
