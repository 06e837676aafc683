import Cryptex.WalletFile

/-!
# Interrupted saves of the wallet

Which saves keep a complete wallet at one of the two paths, over any sequence
of calls that may be cut off.
-/

namespace Cryptex

variable {W : Type} {cipher : WalletCipher W} {password : Bytes} {written : List SealedWallet}
  {fs : WalletFiles}

/-! ## What is kept -/

/-- A complete wallet of an earlier save is at one of the two paths. -/
def Preserved (written : List SealedWallet) (fs : WalletFiles) : Prop :=
  ∃ s ∈ written, fs.wallet = some s.bytes ∨ fs.backup = some s.bytes

/-- The two layouts that saves leave: a complete wallet, or none and a complete
backup. -/
def Layout (written : List SealedWallet) (fs : WalletFiles) : Prop :=
  (∃ s ∈ written, fs.wallet = some s.bytes) ∨
    fs.wallet = none ∧ ∃ s ∈ written, fs.backup = some s.bytes

theorem Layout.preserved (h : Layout written fs) : Preserved written fs := by
  rcases h with ⟨s, hs, hwallet⟩ | ⟨-, s, hs, hbackup⟩
  · exact ⟨s, hs, .inl hwallet⟩
  · exact ⟨s, hs, .inr hbackup⟩

theorem Layout.mono (h : Layout written fs) (more : List SealedWallet) :
    Layout (written ++ more) fs := by
  rcases h with ⟨s, hs, hwallet⟩ | ⟨hnone, s, hs, hbackup⟩
  · exact .inl ⟨s, List.mem_append_left _ hs, hwallet⟩
  · exact .inr ⟨hnone, s, List.mem_append_left _ hs, hbackup⟩

theorem Layout.load (h : Layout written fs)
    (hopens : ∀ s ∈ written, s.OpensWith cipher password) :
    (loadWallet cipher password fs).isSome = true := by
  rcases h with ⟨s, hs, hwallet⟩ | ⟨hnone, s, hs, hbackup⟩
  · obtain ⟨w, hw⟩ := (hopens s hs).openFile
    rw [loadWallet, hwallet, Option.bind_some, hw]
    rfl
  · obtain ⟨w, hw⟩ := (hopens s hs).openFile
    rw [loadWallet, hnone, hbackup, Option.bind_none, Option.bind_some, hw]
    rfl

/-! ## One save -/

section Save

variable {s : SealedWallet} {faults : PersistFaults}

/-- Before the temporary file is renamed it holds the new wallet, and after it
the wallet path does. -/
def TempReady (data : Bytes) : PersistPhase → WalletFiles → Prop
  | .removeBackup, fs | .rotate, fs | .replace _, fs => fs.temp = some data
  | .done, fs => fs.wallet = some data
  | _, _ => True

theorem TempReady.step {phase : PersistPhase} (h : TempReady s.bytes phase fs) :
    TempReady s.bytes (phase.step s.bytes faults fs).1 (phase.step s.bytes faults fs).2 := by
  cases phase with
  | openTemp =>
      rw [PersistPhase.step]
      split
      · trivial
      · trivial
  | writeTemp =>
      rw [PersistPhase.step]
      split
      · trivial
      · rfl
  | removeBackup =>
      rw [PersistPhase.step]
      simp only
      split
      · exact h
      · exact h
  | rotate =>
      rw [PersistPhase.step]
      split
      · exact h
      · split
        · trivial
        · exact h
  | replace movedExisting =>
      have htemp : fs.temp = some s.bytes := h
      rw [PersistPhase.step]
      split
      · next t _ ht =>
          rw [htemp] at ht
          exact ht.symm
      · cases movedExisting
        · trivial
        · trivial
  | restore =>
      rw [PersistPhase.step]
      split
      · trivial
      · trivial
  | removeTemp => trivial
  | done => exact h
  | thrown => trivial

theorem TempReady.steps : ∀ {n : Nat} {p : PersistPhase × WalletFiles},
    TempReady s.bytes p.1 p.2 →
      TempReady s.bytes (persistSteps s.bytes faults n p).1 (persistSteps s.bytes faults n p).2
  | 0, _, h => h
  | _ + 1, _, h => by
      rw [persistSteps]
      exact TempReady.steps h.step

/-- A save that returns leaves its wallet at the path, whatever it found. -/
theorem PersistCall.Completes.wallet_eq {c : PersistCall} (h : c.Completes fs) :
    (c.outcome fs).2.wallet = some c.sealed.bytes := by
  have hready : TempReady c.sealed.bytes (c.outcome fs).1 (c.outcome fs).2 :=
    TempReady.steps (s := c.sealed) (p := (.openTemp, fs)) trivial
  rw [h] at hready
  exact hready

/-- The phases of a save that finds a wallet at the path, or that never removes
the backup. -/
def Safe (written : List SealedWallet) (s : SealedWallet) (faults : PersistFaults) :
    PersistPhase → WalletFiles → Prop
  | .openTemp, fs => Layout written fs ∧ (fs.wallet = none → faults.openFails = true ∨
      faults.writeFails.isSome = true ∨ faults.removeFails = true)
  | .writeTemp, fs => Layout written fs ∧ (fs.wallet = none →
      faults.writeFails.isSome = true ∨ faults.removeFails = true)
  | .removeBackup, fs => Layout written fs ∧ (fs.wallet = none → faults.removeFails = true)
  | .replace _, fs | .restore, fs =>
      fs.wallet = none ∧ ∃ s ∈ written, fs.backup = some s.bytes
  | .done, fs => fs.wallet = some s.bytes
  | _, fs => Layout written fs

theorem Safe.layout {phase : PersistPhase} (h : Safe written s faults phase fs) :
    Layout (written ++ [s]) fs := by
  cases phase with
  | openTemp | writeTemp | removeBackup => exact h.1.mono [s]
  | rotate | removeTemp | thrown => exact Layout.mono h [s]
  | replace _ | restore => exact Layout.mono (.inr h) [s]
  | done => exact .inl ⟨s, List.mem_append_right _ (List.mem_singleton.mpr rfl), h⟩

theorem Safe.step {phase : PersistPhase} (h : Safe written s faults phase fs)
    (hready : TempReady s.bytes phase fs) :
    Safe written s faults (phase.step s.bytes faults fs).1 (phase.step s.bytes faults fs).2 := by
  cases phase with
  | openTemp =>
      rw [PersistPhase.step]
      split
      · exact h.1
      · next hopen => exact ⟨h.1, fun hnone => (h.2 hnone).resolve_left hopen⟩
  | writeTemp =>
      rw [PersistPhase.step]
      split
      · exact h.1
      · next hwrite =>
          refine ⟨h.1, fun hnone => (h.2 hnone).resolve_left ?_⟩
          rw [hwrite]
          exact Bool.false_ne_true
  | removeBackup =>
      rw [PersistPhase.step]
      simp only
      split
      · exact h.1
      · next hremove =>
          rcases h.1 with hwallet | ⟨hnone, -⟩
          · exact .inl hwallet
          · exact absurd (h.2 hnone) hremove
  | rotate =>
      rw [PersistPhase.step]
      split
      · next hnone =>
          rcases h with ⟨s', hs', hwallet⟩ | hbackup
          · rw [hnone] at hwallet
            cases hwallet
          · exact hbackup
      · next w hwallet =>
          split
          · exact h
          · rcases h with ⟨s', hs', hwallet'⟩ | ⟨hnone, -⟩
            · rw [hwallet] at hwallet'
              exact ⟨rfl, s', hs', hwallet'⟩
            · rw [hwallet] at hnone
              cases hnone
  | replace movedExisting =>
      rw [PersistPhase.step]
      split
      · next t _ htemp =>
          rw [show fs.temp = some s.bytes from hready] at htemp
          exact htemp.symm
      · cases movedExisting
        · exact .inr h
        · exact h
  | restore =>
      obtain ⟨hnone, s', hs', hbackup⟩ := h
      rw [PersistPhase.step, hbackup]
      split
      · next b _ hb => exact .inl ⟨s', hs', hb.symm⟩
      · exact .inr ⟨hnone, s', hs', hbackup⟩
  | removeTemp =>
      rw [PersistPhase.step]
      simp only
      split
      · exact h
      · exact h
  | done => exact h
  | thrown => exact h

theorem Safe.steps : ∀ {n : Nat} {p : PersistPhase × WalletFiles},
    Safe written s faults p.1 p.2 → TempReady s.bytes p.1 p.2 →
      Safe written s faults (persistSteps s.bytes faults n p).1 (persistSteps s.bytes faults n p).2
  | 0, _, h, _ => h
  | _ + 1, _, h, hready => by
      rw [persistSteps]
      exact Safe.steps (h.step hready) hready.step

theorem persistSteps_done (data : Bytes) (faults : PersistFaults) (fs : WalletFiles) :
    ∀ n, persistSteps data faults n (.done, fs) = (.done, fs)
  | 0 => rfl
  | n + 1 => persistSteps_done data faults fs n

theorem persistSteps_thrown (data : Bytes) (faults : PersistFaults) (fs : WalletFiles) :
    ∀ n, persistSteps data faults n (.thrown, fs) = (.thrown, fs)
  | 0 => rfl
  | n + 1 => persistSteps_thrown data faults fs n

end Save

namespace PersistCall

/-- The save finds no file at the wallet path, removes the backup, and is cut
off or fails before the temporary file is renamed. -/
structure Loses (c : PersistCall) (fs : WalletFiles) : Prop where
  no_wallet : fs.wallet = none
  opens : c.faults.openFails = false
  writes : c.faults.writeFails = none
  removes : c.faults.removeFails = false
  past_backup : 3 ≤ c.operations
  not_replaced : c.operations < 5 ∨ c.faults.replaceFails = true

/-- The files after the first three operations of such a save. -/
theorem outcome_of_no_wallet {c : PersistCall} (hnone : fs.wallet = none)
    (hopen : c.faults.openFails = false) (hwrite : c.faults.writeFails = none)
    (hremove : c.faults.removeFails = false) {n : Nat} (hn : c.operations = n + 3) :
    c.outcome fs = persistSteps c.sealed.bytes c.faults n
      (.rotate, ⟨none, none, some c.sealed.bytes⟩) := by
  rw [outcome, hn, persistSteps, persistSteps, persistSteps]
  simp only [PersistPhase.step, hopen, hwrite, hremove, hnone, Bool.false_eq_true, if_false]

/-- Then neither path holds a file. -/
theorem Loses.lost {c : PersistCall} (h : c.Loses fs) :
    (c.outcome fs).2.wallet = none ∧ (c.outcome fs).2.backup = none := by
  obtain ⟨n, hn⟩ := Nat.exists_eq_add_of_le h.past_backup
  rw [Nat.add_comm] at hn
  rw [outcome_of_no_wallet h.no_wallet h.opens h.writes h.removes hn]
  match n, hn with
  | 0, _ => exact ⟨rfl, rfl⟩
  | 1, _ => exact ⟨rfl, rfl⟩
  | 2, hn =>
      have hreplace : c.faults.replaceFails = true := h.not_replaced.resolve_left (by omega)
      simp [persistSteps, PersistPhase.step, hreplace]
  | k + 3, hn =>
      have hreplace : c.faults.replaceFails = true := h.not_replaced.resolve_left (by omega)
      simp only [persistSteps, PersistPhase.step, hreplace, Bool.false_eq_true, if_false,
        persistSteps_thrown]
      split
      · exact ⟨rfl, rfl⟩
      · exact ⟨rfl, rfl⟩

/-- Any other save keeps one of the two layouts. -/
theorem layout_of_not_loses {c : PersistCall} (h : Layout written fs) (hkeeps : ¬ c.Loses fs) :
    Layout (written ++ [c.sealed]) (c.outcome fs).2 := by
  by_cases hsafe : fs.wallet = none → c.faults.openFails = true ∨
      c.faults.writeFails.isSome = true ∨ c.faults.removeFails = true
  · have hstart : Safe written c.sealed c.faults .openTemp fs := ⟨h, hsafe⟩
    exact (Safe.steps (p := (.openTemp, fs)) hstart trivial).layout
  · simp only [Classical.not_imp, not_or, Bool.not_eq_true, Option.isSome_eq_false_iff,
      Option.isNone_iff_eq_none] at hsafe
    obtain ⟨hnone, hopen, hwrite, hremove⟩ := hsafe
    by_cases hpast : 3 ≤ c.operations
    · have hreplaced : ¬ (c.operations < 5 ∨ c.faults.replaceFails = true) := fun hnot =>
        hkeeps ⟨hnone, hopen, hwrite, hremove, hpast, hnot⟩
      rw [not_or, Bool.not_eq_true] at hreplaced
      obtain ⟨n, hn⟩ := Nat.exists_eq_add_of_le (show 5 ≤ c.operations by omega)
      rw [outcome_of_no_wallet hnone hopen hwrite hremove (n := n + 2) (by omega)]
      refine .inl ⟨c.sealed, List.mem_append_right _ (List.mem_singleton.mpr rfl), ?_⟩
      simp only [persistSteps, PersistPhase.step, hreplaced.2, persistSteps_done]
    · -- The backup is still there.
      have hbackup : (c.outcome fs).2.wallet = fs.wallet ∧ (c.outcome fs).2.backup = fs.backup := by
        rw [outcome]
        match hops : c.operations with
        | 0 => exact ⟨rfl, rfl⟩
        | 1 =>
            simp [persistSteps, PersistPhase.step, hopen]
        | 2 =>
            simp [persistSteps, PersistPhase.step, hopen, hwrite]
        | k + 3 => omega
      have hkept := h.mono [c.sealed]
      rwa [Layout, ← hbackup.1, ← hbackup.2] at hkept

end PersistCall

/-! ## Runs -/

namespace FileCall

/-- A save that loses the wallet; `load` never does. -/
def Loses (fs : WalletFiles) : FileCall → Prop
  | persist c => c.Loses fs
  | load => False

theorem layout_run {c : FileCall} (h : Layout written fs) (hkeeps : ¬ c.Loses fs) :
    Layout (written ++ c.sealedWallets) (c.run fs) := by
  cases c with
  | persist c => exact PersistCall.layout_of_not_loses h hkeeps
  | load => exact h.mono []

theorem Loses.not_preserved {c : FileCall} (h : c.Loses fs) : ¬ Preserved written (c.run fs) := by
  cases c with
  | persist c =>
      obtain ⟨hwallet, hbackup⟩ := PersistCall.Loses.lost h
      rintro ⟨s, -, hs | hs⟩
      · rw [run, hwallet] at hs
        cases hs
      · rw [run, hbackup] at hs
        cases hs
  | load => exact h.elim

end FileCall

/-- In every state of a run from here on, a complete wallet is at one of the two
paths and can be loaded. -/
def Survives (cipher : WalletCipher W) (password : Bytes) :
    List FileCall → List SealedWallet → WalletFiles → Prop
  | [], written, fs =>
      Preserved written fs ∧ (loadWallet cipher password fs).isSome = true
  | c :: rest, written, fs =>
      (Preserved written fs ∧ (loadWallet cipher password fs).isSome = true) ∧
        Survives cipher password rest (written ++ c.sealedWallets) (c.run fs)

/-- No call of a run loses the wallet. -/
def NeverLoses : List FileCall → WalletFiles → Prop
  | [], _ => True
  | c :: rest, fs => ¬ c.Loses fs ∧ NeverLoses rest (c.run fs)

theorem Survives.preserved {calls : List FileCall} (h : Survives cipher password calls written fs) :
    Preserved written fs := by
  cases calls with
  | nil => exact h.1
  | cons _ _ => exact h.1.1

theorem neverLoses_of_survives : ∀ {calls : List FileCall} {written : List SealedWallet}
    {fs : WalletFiles}, Survives cipher password calls written fs → NeverLoses calls fs
  | [], _, _, _ => trivial
  | _ :: _, _, _, h =>
      ⟨fun hloses => hloses.not_preserved h.2.preserved, neverLoses_of_survives h.2⟩

theorem survives_of_neverLoses : ∀ {calls : List FileCall} {written : List SealedWallet}
    {fs : WalletFiles}, Layout written fs → NeverLoses calls fs →
      (∀ s ∈ written ++ calls.flatMap FileCall.sealedWallets, s.OpensWith cipher password) →
        Survives cipher password calls written fs
  | [], _, _, hlayout, _, hopens =>
      ⟨hlayout.preserved, hlayout.load fun s hs => hopens s (List.mem_append_left _ hs)⟩
  | _ :: _, _, _, hlayout, hnever, hopens => by
      refine ⟨⟨hlayout.preserved, hlayout.load fun s hs => hopens s (List.mem_append_left _ hs)⟩,
        survives_of_neverLoses (FileCall.layout_run hlayout hnever.1) hnever.2 fun s hs => ?_⟩
      rw [List.flatMap_cons, ← List.append_assoc] at hopens
      exact hopens s hs

/-- After a first save that returned, whatever was at the paths before, a wallet
survives a run exactly when no save of the run finds no file at the wallet path,
removes the backup and does not come to the last rename. -/
theorem wallet_survives_iff {first : PersistCall} (hfirst : first.Completes fs) (calls : List FileCall)
    (hopens : ∀ s ∈ first.sealed :: calls.flatMap FileCall.sealedWallets,
      s.OpensWith cipher password) :
    Survives cipher password calls [first.sealed] (first.outcome fs).2 ↔
      NeverLoses calls (first.outcome fs).2 := by
  refine ⟨neverLoses_of_survives, fun hnever => survives_of_neverLoses ?_ hnever hopens⟩
  exact .inl ⟨first.sealed, List.mem_singleton.mpr rfl, hfirst.wallet_eq⟩

/-! ### Two interruptions -/

def sampleSealed : SealedWallet where
  kdf := .argon2id
  salt := [1]
  iv := [2]
  ciphertext := [3]
  salt_lt := by decide
  iv_lt := by decide
  ciphertext_lt := by decide

/-- A cipher that ignores the key. -/
def sampleCipher : WalletCipher Bytes where
  deriveKey := fun _ salt _ => some salt
  aesDecrypt := fun ciphertext _ _ => some ciphertext
  deserialize := fun plaintext => some plaintext

theorem sampleSealed_opensWith (password : Bytes) : sampleSealed.OpensWith sampleCipher password :=
  ⟨[1], [3], [3], rfl, rfl, rfl⟩

def noFaults : PersistFaults where
  openFails := false
  writeFails := none
  removeFails := false
  rotateFails := false
  replaceFails := false
  restoreFails := false
  removeTempFails := false

/-- A save without faults, cut off after some operations. -/
def cutSave (operations : Nat) : PersistCall := ⟨sampleSealed, noFaults, operations⟩

def emptyFiles : WalletFiles := ⟨none, none, none⟩

theorem cutSave_completes : (cutSave 8).Completes emptyFiles := rfl

theorem sealedWallets_cutSaves {calls : List FileCall}
    (h : ∀ c ∈ calls, c = .load ∨ ∃ n, c = .persist (cutSave n)) :
    ∀ s ∈ (cutSave 8).sealed :: calls.flatMap FileCall.sealedWallets,
      s.OpensWith sampleCipher [] := by
  intro s hs
  rcases List.mem_cons.mp hs with rfl | hs
  · exact sampleSealed_opensWith []
  · obtain ⟨c, hc, hs⟩ := List.mem_flatMap.mp hs
    rcases h c hc with rfl | ⟨n, rfl⟩
    · cases hs
    · rw [FileCall.sealedWallets, List.mem_singleton] at hs
      rw [hs]
      exact sampleSealed_opensWith []

/-- A save is cut off between the two renames, and the next one after it has
removed the backup. -/
theorem not_wallet_survives : ¬ ∀ (cipher : WalletCipher Bytes) (password : Bytes) (fs : WalletFiles)
    (first : PersistCall), first.Completes fs → ∀ calls : List FileCall,
      (∀ s ∈ first.sealed :: calls.flatMap FileCall.sealedWallets, s.OpensWith cipher password) →
        Survives cipher password calls [first.sealed] (first.outcome fs).2 := by
  intro hall
  have hsurvives := hall sampleCipher [] emptyFiles (cutSave 8) cutSave_completes
    [.persist (cutSave 4), .persist (cutSave 3)] (sealedWallets_cutSaves (by
      intro c hc
      simp only [List.mem_cons, List.not_mem_nil, or_false] at hc
      rcases hc with rfl | rfl
      · exact .inr ⟨4, rfl⟩
      · exact .inr ⟨3, rfl⟩))
  have hloses : (cutSave 3).Loses ((cutSave 4).outcome ((cutSave 8).outcome emptyFiles).2).2 :=
    ⟨rfl, rfl, rfl, rfl, Nat.le_refl _, .inl (by decide)⟩
  exact (neverLoses_of_survives hsurvives).2.1 hloses

/-- The save after an interruption comes to its end. -/
theorem wallet_survives_sample :
    Survives sampleCipher [] [.persist (cutSave 4), .load, .persist (cutSave 8)] [sampleSealed]
      ((cutSave 8).outcome emptyFiles).2 := by
  refine (wallet_survives_iff cutSave_completes _ (sealedWallets_cutSaves ?_)).mpr
    ⟨fun h => ?_, not_false, fun h => ?_, trivial⟩
  · intro c hc
    simp only [List.mem_cons, List.not_mem_nil, or_false] at hc
    rcases hc with rfl | rfl | rfl
    · exact .inr ⟨4, rfl⟩
    · exact .inl rfl
    · exact .inr ⟨8, rfl⟩
  · have hwallet := h.no_wallet
    cases hwallet
  · rcases h.not_replaced with hcut | hreplace
    · exact absurd hcut (by decide)
    · cases hreplace

end Cryptex
