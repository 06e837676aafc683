import Cryptex.ChainstateFile
import Cryptex.Lib.GapScan
import Cryptex.WalletKeys

/-!
# What a rescan finds

`rescan` as a scan up to a gap (`GapScan`). A derived key is appended when its
index is not below the number of addresses, so the keys of the indices at the
positions of imported keys are left out.
-/

namespace Cryptex

open Encoding GapScan

variable {lib : KeyLib} {chain : ChainReader} {w w' w₀ : HdWallet}

namespace HdWallet

/-- Whether the address of an index has chain activity. -/
def usedIndex (lib : KeyLib) (chain : ChainReader) (w : HdWallet) (index : Nat) : Bool :=
  match lib.deriveWalletKeypair w.hdScheme w.masterSeed (UInt32.ofNat index) with
  | .error _ => false
  | .ok kp =>
      match derivedActivity lib chain kp with
      | .error _ => false
      | .ok active => active

/-- Every used index within the gap has its address in the wallet and is below
the index of the next derived address, which was never used. -/
structure Complete (lib : KeyLib) (chain : ChainReader) (gap : Nat) (w : HdWallet) : Prop where
  found : ∀ (i : UInt32) (kp : Keypair), Reached (w.usedIndex lib chain) gap i.toNat →
    lib.deriveWalletKeypair w.hdScheme w.masterSeed i = .ok kp →
      lib.keyAddress kp.pub ∈ w.addresses
  exceeds : ∀ i : UInt32, Reached (w.usedIndex lib chain) gap i.toNat → i < w.nextHdIndex
  fresh : w.usedIndex lib chain w.nextHdIndex.toNat = false

/-- The index up to which a scan goes in any case. -/
def scanFrom (w : HdWallet) : Nat := max w.nextHdIndex.toNat w.addresses.length

/-- A wallet for which a scan is enough: the used indices below the number of
its addresses are among them, the scan ends before the indices do, and it ends
at an unused one. -/
structure Rescannable (lib : KeyLib) (chain : ChainReader) (gap : Nat) (w : HdWallet) : Prop where
  held : ∀ (i : UInt32) (kp : Keypair), i.toNat < w.addresses.length →
    Reached (w.usedIndex lib chain) gap i.toNat →
      lib.deriveWalletKeypair w.hdScheme w.masterSeed i = .ok kp →
        lib.keyAddress kp.pub ∈ w.addresses
  ends : ∀ i : UInt32, Reached (w.usedIndex lib chain) gap i.toNat →
    ∃ n : UInt32, Ends (w.usedIndex lib chain) w.scanFrom gap n.toNat
  unused : ∀ n : UInt32, Ends (w.usedIndex lib chain) w.scanFrom gap n.toNat →
    w.usedIndex lib chain n.toNat = false

/-! ## The counters -/

/-- The counters of the loop at the index `n`. The target is never beyond the
end of the gap that the loop is in. -/
structure Scan.At (used : Nat → Bool) (start gap n : Nat) (s : Scan) : Prop where
  index_eq : s.index.toNat = n
  trailing_eq : s.trailingUnused.toNat = trailing used n
  start_le : start ≤ s.targetIndex.toNat
  target_le : s.targetIndex.toNat ≤ start ∨ s.targetIndex.toNat + trailing used n ≤ n + gap

variable {used : Nat → Bool} {start n : Nat} {gapLimit : UInt32} {s : Scan}

/-- The condition of the loop. -/
theorem Scan.At.continues_iff (h : s.At used start gapLimit.toNat n) :
    (s.index < s.targetIndex ∨ s.trailingUnused < gapLimit) ↔ ¬ Stops used start gapLimit.toNat n := by
  have hstart := h.start_le
  rw [UInt32.lt_iff_toNat_lt, UInt32.lt_iff_toNat_lt, h.index_eq, h.trailing_eq, Stops]
  rcases h.target_le with htarget | htarget
  · omega
  · omega

theorem Scan.At.next (h : s.At used start gapLimit.toNat n) (hlast : n + 1 < 2 ^ 32) :
    (s.next gapLimit (used n)).At used start gapLimit.toNat (n + 1) := by
  have hindex := h.index_eq
  have hstart := h.start_le
  have htarget := h.target_le
  have hsucc : (s.index + 1).toNat = n + 1 := by rw [toNat_add_one (by omega), hindex]
  cases hused : used n with
  | true =>
      -- the new target may wrap around, and is then below the index
      have hsum : (s.index + gapLimit + 1).toNat ≤ n + 1 + gapLimit.toNat := by
        rw [UInt32.toNat_add, UInt32.toNat_add, hindex, UInt32.toNat_one]
        have hmod := Nat.mod_le (n + gapLimit.toNat) (2 ^ 32)
        exact (Nat.mod_le _ _).trans (by omega)
      refine ⟨hsucc, (trailing_succ_of_used hused).symm, ?_, ?_⟩
      · change start ≤ (max s.targetIndex (s.index + gapLimit + 1)).toNat
        rw [uint32_toNat_max]
        exact hstart.trans (le_max_left _ _)
      · change (max s.targetIndex (s.index + gapLimit + 1)).toNat ≤ start ∨
          (max s.targetIndex (s.index + gapLimit + 1)).toNat + _ ≤ _
        rw [uint32_toNat_max, trailing_succ_of_used hused]
        omega
  | false =>
      have hle : trailing used n ≤ n := trailing_le n
      have htrailing : (s.trailingUnused + 1).toNat = trailing used (n + 1) := by
        rw [toNat_add_one (by rw [h.trailing_eq]; omega), h.trailing_eq,
          trailing_succ_of_unused hused]
      refine ⟨hsucc, htrailing, hstart, ?_⟩
      rw [trailing_succ_of_unused hused]
      exact htarget.imp_right fun htarget => by
        change s.targetIndex.toNat + (trailing used n + 1) ≤ n + 1 + gapLimit.toNat
        omega

/-! ## The addresses -/

/-- The wallet when the loop is at the index `n`: the keys of the indices from
the number of addresses on were appended. -/
structure Scanned (lib : KeyLib) (w₀ : HdWallet) (n : Nat) (w : HdWallet) : Prop where
  scheme_eq : w.hdScheme = w₀.hdScheme
  seed_eq : w.masterSeed = w₀.masterSeed
  length_eq : w.addresses.length = max w₀.addresses.length n
  mem_iff : ∀ a, a ∈ w.addresses ↔ a ∈ w₀.addresses ∨ ∃ (i : UInt32) (kp : Keypair),
    w₀.addresses.length ≤ i.toNat ∧ i.toNat < n ∧
      lib.deriveWalletKeypair w₀.hdScheme w₀.masterSeed i = .ok kp ∧ a = lib.keyAddress kp.pub

theorem scanned_zero (w : HdWallet) : Scanned lib w 0 w :=
  ⟨rfl, rfl, (Nat.max_zero _).symm, fun a => ⟨.inl, fun h => by
    rcases h with h | ⟨i, kp, -, hi, -⟩
    · exact h
    · exact absurd hi (Nat.not_lt_zero _)⟩⟩

theorem Scanned.adopt {index : UInt32} {kp : Keypair} (h : Scanned lib w₀ index.toNat w)
    (hderive : lib.deriveWalletKeypair w₀.hdScheme w₀.masterSeed index = .ok kp) :
    ∃ w', HdWallet.adopt lib index kp w = .ok w' ∧ Scanned lib w₀ (index.toNat + 1) w' := by
  have hlength := h.length_eq
  by_cases hlast : index.toNat ≥ w.addresses.length
  · rw [HdWallet.adopt, if_pos hlast, appendKey, KeyLib.walletAddress_eq]
    refine ⟨_, rfl, h.scheme_eq, h.seed_eq, ?_, fun a => ?_⟩
    · change (w.addresses ++ [lib.keyAddress kp.pub]).length = _
      rw [List.length_append, List.length_singleton]
      omega
    · change a ∈ w.addresses ++ [lib.keyAddress kp.pub] ↔ _
      rw [List.mem_append, List.mem_singleton, h.mem_iff]
      constructor
      · rintro ((hold | ⟨i, kp', hle, hi, hkey⟩) | rfl)
        · exact .inl hold
        · exact .inr ⟨i, kp', hle, Nat.lt_succ_of_lt hi, hkey⟩
        · exact .inr ⟨index, kp, by omega, Nat.lt_succ_self _, hderive, rfl⟩
      · rintro (hold | ⟨i, kp', hle, hi, hkey, rfl⟩)
        · exact .inl (.inl hold)
        · rcases Nat.lt_succ_iff_lt_or_eq.mp hi with hlt | heq
          · exact .inl (.inr ⟨i, kp', hle, hlt, hkey, rfl⟩)
          · rw [UInt32.toNat_inj.mp heq, hderive] at hkey
            rw [Except.ok.inj hkey]
            exact .inr rfl
  · rw [HdWallet.adopt, if_neg hlast]
    refine ⟨w, rfl, h.scheme_eq, h.seed_eq, by omega, fun a => ?_⟩
    rw [h.mem_iff]
    constructor
    · rintro (hold | ⟨i, kp', hle, hi, hkey⟩)
      · exact .inl hold
      · exact .inr ⟨i, kp', hle, Nat.lt_succ_of_lt hi, hkey⟩
    · rintro (hold | ⟨i, kp', hle, hi, hkey⟩)
      · exact .inl hold
      · exact .inr ⟨i, kp', hle, by omega, hkey⟩

/-- The outputs of the chain that pay a derived address decide its activity. -/
theorem derivedActivity_eq (lib : KeyLib) (chain : ChainReader) (kp : Keypair) :
    derivedActivity lib chain kp = .ok (chain.blocks.any fun blk => blk.transactions.toList.any
      fun tx => tx.outputs.toList.any fun out =>
        addressesEqual lib.sha256 out.scriptPubKey.toList (lib.keyAddress kp.pub)) := by
  rw [derivedActivity, KeyLib.pubkeyToAddress_eq]
  simp only [ChainReader.hasActivity, canonicalizeAddress_encode]
  rfl

theorem usedIndex_toNat {index : UInt32} {kp : Keypair} {active : Bool}
    (hderive : lib.deriveWalletKeypair w.hdScheme w.masterSeed index = .ok kp)
    (hactivity : derivedActivity lib chain kp = .ok active) :
    w.usedIndex lib chain index.toNat = active := by
  rw [usedIndex, UInt32.ofNat_toNat, hderive]
  simp only [hactivity]

theorem usedIndex_congr (hscheme : w'.hdScheme = w.hdScheme) (hseed : w'.masterSeed = w.masterSeed) :
    w'.usedIndex lib chain = w.usedIndex lib chain := by
  funext index
  rw [usedIndex, usedIndex, hscheme, hseed]

/-! ## The loop -/

/-- A wallet with a key at every index gets no more of them. -/
theorem rescanLoop_full : ∀ {fuel : Nat} {s : Scan} {w w' : HdWallet} {r : Except Stop Unit},
    2 ^ 32 ≤ w.addresses.length → rescanLoop lib chain gapLimit fuel s w = (w', r) → w' = w
  | 0, s, w, w', r, _, h => (congrArg Prod.fst h).symm
  | fuel + 1, s, w, w', r, hfull, h => by
      have hindex := s.index.toNat_lt
      rw [rescanLoop] at h
      split at h
      · split at h
        · exact (congrArg Prod.fst h).symm
        · next kp _ =>
            have hadopt : adopt lib s.index kp w = .ok w := by
              rw [adopt, if_neg (by omega)]
            simp only [hadopt] at h
            split at h
            · exact (congrArg Prod.fst h).symm
            · exact rescanLoop_full hfull h
      · exact (congrArg Prod.fst h).symm

/-- The loop ends where the scan does, or goes through all indices. -/
theorem rescanLoop_scanned : ∀ {fuel : Nat} {s : Scan} {w w' : HdWallet} {n : Nat},
    s.At (w₀.usedIndex lib chain) start gapLimit.toNat n →
    (∀ m < n, ¬ Stops (w₀.usedIndex lib chain) start gapLimit.toNat m) → Scanned lib w₀ n w →
    rescanLoop lib chain gapLimit fuel s w = (w', .ok ()) →
      (∃ e : UInt32, Ends (w₀.usedIndex lib chain) start gapLimit.toNat e.toNat ∧
        Scanned lib w₀ e.toNat w') ∨
      (∀ e : UInt32, ¬ Ends (w₀.usedIndex lib chain) start gapLimit.toNat e.toNat) ∧
        Scanned lib w₀ (2 ^ 32) w'
  | 0, _, _, _, _, _, _, _, h => by cases h
  | fuel + 1, s, w, w', n, hat, hfirst, hscanned, h => by
      have hindex := hat.index_eq
      have hlt := s.index.toNat_lt
      rw [rescanLoop] at h
      split at h
      · next hgo =>
          have hnot := hat.continues_iff.mp hgo
          rw [hscanned.scheme_eq, hscanned.seed_eq] at h
          split at h
          · cases h
          · next kp hderive =>
              rw [← hindex] at hscanned
              obtain ⟨w₁, hadopt, hscanned₁⟩ := hscanned.adopt hderive
              simp only [hadopt] at h
              split at h
              · cases h
              · next active hactivity =>
                  have hactive : w₀.usedIndex lib chain n = active := by
                    rw [← hindex]
                    exact usedIndex_toNat hderive hactivity
                  have hfirst' : ∀ m < n + 1, ¬ Stops (w₀.usedIndex lib chain) start
                      gapLimit.toNat m := fun m hm => by
                    rcases Nat.lt_succ_iff_lt_or_eq.mp hm with hlt | rfl
                    · exact hfirst m hlt
                    · exact hnot
                  rw [hindex] at hscanned₁
                  by_cases hlast : n + 1 < 2 ^ 32
                  · have hnext := hat.next hlast
                    rw [hactive] at hnext
                    exact rescanLoop_scanned hnext hfirst' hscanned₁ h
                  · have hall : n + 1 = 2 ^ 32 := by omega
                    rw [hall] at hscanned₁
                    have hlength := hscanned₁.length_eq
                    rw [rescanLoop_full (by omega) h]
                    refine .inr ⟨fun e hends => ?_, hscanned₁⟩
                    have he := e.toNat_lt
                    exact hfirst' _ (by omega) hends.stops
      · next hstop =>
          have hstops := not_not.mp (mt hat.continues_iff.mpr hstop)
          cases h
          rw [← hindex] at hstops hfirst hscanned
          exact .inl ⟨s.index, ⟨hstops, hfirst⟩, hscanned⟩

/-- The loop comes to the end of the scan. -/
theorem rescanLoop_returns {e : Nat} (hlast : e < 2 ^ 32)
    (hends : Ends (w₀.usedIndex lib chain) start gapLimit.toNat e)
    (hderive : ∀ i : UInt32, i.toNat < e →
      ∃ kp, lib.deriveWalletKeypair w₀.hdScheme w₀.masterSeed i = .ok kp) :
    ∀ {fuel : Nat} {s : Scan} {w : HdWallet} {n : Nat},
      s.At (w₀.usedIndex lib chain) start gapLimit.toNat n → n ≤ e → Scanned lib w₀ n w →
      e - n < fuel → ∃ w', rescanLoop lib chain gapLimit fuel s w = (w', .ok ())
  | 0, _, _, _, _, _, _, hfuel => absurd hfuel (Nat.not_lt_zero _)
  | fuel + 1, s, w, n, hat, hle, hscanned, hfuel => by
      have hindex := hat.index_eq
      rw [rescanLoop]
      rcases Nat.lt_or_eq_of_le hle with hlt | rfl
      · rw [if_pos (hat.continues_iff.mpr (hends.first n hlt)), hscanned.scheme_eq,
          hscanned.seed_eq]
        obtain ⟨kp, hkey⟩ := hderive s.index (by omega)
        rw [← hindex] at hscanned
        obtain ⟨w₁, hadopt, hscanned₁⟩ := hscanned.adopt hkey
        obtain ⟨active, hactivity⟩ := (⟨_, derivedActivity_eq lib chain kp⟩ : ∃ active, derivedActivity lib chain kp = .ok active)
        have hactive : w₀.usedIndex lib chain n = active := by
          rw [← hindex]
          exact usedIndex_toNat hkey hactivity
        have hnext := hat.next (by omega)
        rw [hactive] at hnext
        rw [hindex] at hscanned₁
        simp only [hkey, hadopt, hactivity]
        exact rescanLoop_returns hlast hends hderive hnext hlt hscanned₁ (by omega)
      · rw [if_neg (fun hgo => hat.continues_iff.mp hgo hends.stops)]
        exact ⟨w, rfl⟩

/-! ## The call -/

theorem scanStart_at (hcount : w.addresses.length < 2 ^ 32) :
    w.scanStart.At (w.usedIndex lib chain) w.scanFrom gapLimit.toNat 0 := by
  have htarget : w.scanStart.targetIndex.toNat = w.scanFrom := by
    rw [scanStart, uint32_toNat_max, scanFrom]
    exact congrArg _ (Nat.mod_eq_of_lt hcount)
  exact ⟨rfl, rfl, htarget.ge, .inl htarget.le⟩

theorem rescan_eq_ok {fuel : Nat} {r : Bool × Nat} (h : rescan lib chain gapLimit fuel w = (w', .ok r)) :
    ∃ w₁, rescanLoop lib chain (if gapLimit = 0 then 1 else gapLimit) fuel w.scanStart w
        = (w₁, .ok ()) ∧
      w' = { w₁ with nextHdIndex := UInt32.ofNat w₁.addresses.length } := by
  rw [rescan] at h
  split at h
  · cases h
  · simp only at h
    split at h
    · cases h
    · next w₁ hloop =>
        cases h
        exact ⟨w₁, hloop, rfl⟩

/-- The gap limit that `rescan` uses. -/
def effectiveGap (gapLimit : UInt32) : Nat := (if gapLimit = 0 then (1 : UInt32) else gapLimit).toNat

theorem effectiveGap_pos (gapLimit : UInt32) : 0 < effectiveGap gapLimit := by
  rw [effectiveGap]
  split
  · exact Nat.one_pos
  · next hne => exact Nat.pos_of_ne_zero fun hzero => hne (UInt32.toNat_inj.mp hzero)

/-- What is left when the scan ended at an index. -/
theorem Scanned.complete_iff {e : UInt32} {gap : Nat} (h : Scanned lib w e.toNat w')
    (hsep : lib.Separates w.hdScheme w.masterSeed)
    (hends : Ends (w.usedIndex lib chain) w.scanFrom gap e.toNat) (hnext : w'.nextHdIndex = e) :
    w'.Complete lib chain gap ↔ w.Rescannable lib chain gap := by
  have hused : w'.usedIndex lib chain = w.usedIndex lib chain :=
    usedIndex_congr h.scheme_eq h.seed_eq
  constructor
  · intro hcomplete
    have hfound := hcomplete.found
    have hfresh := hcomplete.fresh
    rw [hused, h.scheme_eq, h.seed_eq] at hfound
    rw [hused, hnext] at hfresh
    refine ⟨fun i kp hlt hreached hderive => ?_, fun _ _ => ⟨e, hends⟩, fun n hn => ?_⟩
    · rcases (h.mem_iff _).mp (hfound i kp hreached hderive) with hold | ⟨j, kp', hle, -, hkey, heq⟩
      · exact hold
      · rw [hsep hderive hkey heq] at hlt
        omega
    · rw [hn.unique hends]
      exact hfresh
  · intro hrescannable
    refine ⟨fun i kp hreached hderive => ?_, fun i hreached => ?_, ?_⟩
    · rw [hused] at hreached
      rw [h.scheme_eq, h.seed_eq] at hderive
      rw [h.mem_iff]
      by_cases hlt : i.toNat < w.addresses.length
      · exact .inl (hrescannable.held i kp hlt hreached hderive)
      · exact .inr ⟨i, kp, Nat.le_of_not_lt hlt, hreached.lt_of_stops hends.stops, hderive, rfl⟩
    · rw [hused] at hreached
      rw [hnext]
      exact UInt32.lt_iff_toNat_lt.mpr (hreached.lt_of_stops hends.stops)
    · rw [hused, hnext]
      exact hrescannable.unused e hends

/-- What is left when the loop went through all indices: the next one is 0. -/
theorem complete_iff_of_wrapped {gap : Nat} (hused : w'.usedIndex lib chain = w.usedIndex lib chain)
    (hgap : 0 < gap) (hnone : ∀ e : UInt32, ¬ Ends (w.usedIndex lib chain) w.scanFrom gap e.toNat)
    (hnext : w'.nextHdIndex = 0) : w'.Complete lib chain gap ↔ w.Rescannable lib chain gap := by
  constructor
  · intro hcomplete
    have hunreached : ∀ i : UInt32, ¬ Reached (w.usedIndex lib chain) gap i.toNat :=
      fun i hreached => by
        have hlt := hcomplete.exceeds i (hused ▸ hreached)
        rw [hnext] at hlt
        exact absurd (UInt32.lt_iff_toNat_lt.mp hlt) (Nat.not_lt_zero _)
    exact ⟨fun i _ _ hreached => absurd hreached (hunreached i),
      fun i hreached => absurd hreached (hunreached i), fun n hn => absurd hn (hnone n)⟩
  · intro hrescannable
    have hunreached : ∀ i : UInt32, ¬ Reached (w.usedIndex lib chain) gap i.toNat :=
      fun i hreached => by
        obtain ⟨n, hn⟩ := hrescannable.ends i hreached
        exact hnone n hn
    refine ⟨fun i _ hreached => absurd (hused ▸ hreached) (hunreached i),
      fun i hreached => absurd (hused ▸ hreached) (hunreached i), ?_⟩
    rw [hused, hnext]
    cases hzero : w.usedIndex lib chain (0 : UInt32).toNat with
    | false => rfl
    | true => exact absurd (reached_zero hgap hzero) (hunreached 0)

/-- Where the scan of a call that returned has ended. A wallet that was loaded
has fewer than `2 ^ 32` keys, since the length of its file is a `uint32_t`. -/
theorem rescan_scanned {fuel : Nat} {r : Bool × Nat} (hcount : w.addresses.length < 2 ^ 32)
    (h : rescan lib chain gapLimit fuel w = (w', .ok r)) :
    (∃ e : UInt32, Ends (w.usedIndex lib chain) w.scanFrom (effectiveGap gapLimit) e.toNat ∧
      Scanned lib w e.toNat w' ∧ w'.nextHdIndex = e) ∨
    (∀ e : UInt32, ¬ Ends (w.usedIndex lib chain) w.scanFrom (effectiveGap gapLimit) e.toNat) ∧
      Scanned lib w (2 ^ 32) w' ∧ w'.nextHdIndex = 0 := by
  obtain ⟨w₁, hloop, rfl⟩ := rescan_eq_ok h
  have hset : ∀ n, Scanned lib w n w₁ →
      Scanned lib w n { w₁ with nextHdIndex := UInt32.ofNat w₁.addresses.length } := fun _ hscanned =>
    ⟨hscanned.scheme_eq, hscanned.seed_eq, hscanned.length_eq, hscanned.mem_iff⟩
  have hscan := rescanLoop_scanned (scanStart_at hcount) (fun m hm => absurd hm (Nat.not_lt_zero m))
    (scanned_zero w) hloop
  rcases hscan with ⟨e, hends, hscanned⟩ | ⟨hnone, hscanned⟩
  · have hlength : w₁.addresses.length = e.toNat := by
      rw [hscanned.length_eq]
      exact max_eq_right ((le_max_right _ _).trans hends.stops.1)
    refine .inl ⟨e, hends, hset _ hscanned, ?_⟩
    rw [hlength]
    exact UInt32.ofNat_toNat
  · have hlength : w₁.addresses.length = 2 ^ 32 := by
      rw [hscanned.length_eq]
      omega
    refine .inr ⟨hnone, hset _ hscanned, ?_⟩
    rw [hlength]
    rfl

/-- A rescan that returns finds every used address within the gap exactly when
the used indices at the positions that the wallet already has are its
addresses, and the scan ends at an unused index. -/
theorem rescan_complete_iff {fuel : Nat} {r : Bool × Nat}
    (hsep : lib.Separates w.hdScheme w.masterSeed) (hcount : w.addresses.length < 2 ^ 32)
    (h : rescan lib chain gapLimit fuel w = (w', .ok r)) :
    w'.Complete lib chain (effectiveGap gapLimit) ↔
      w.Rescannable lib chain (effectiveGap gapLimit) := by
  rcases rescan_scanned hcount h with ⟨e, hends, hscanned, hnext⟩ | ⟨hnone, hscanned, hnext⟩
  · exact hscanned.complete_iff hsep hends hnext
  · exact complete_iff_of_wrapped (usedIndex_congr hscanned.scheme_eq hscanned.seed_eq)
      (effectiveGap_pos gapLimit) hnone hnext

/-- A rescan returns when the keys up to the end of the scan can be derived. -/
theorem rescan_returns {e fuel : Nat} (hscheme : w.hdScheme ≠ .none) (hseed : w.masterSeed ≠ [])
    (hcount : w.addresses.length < 2 ^ 32) (hlast : e < 2 ^ 32)
    (hends : Ends (w.usedIndex lib chain) w.scanFrom (effectiveGap gapLimit) e)
    (hderive : ∀ i : UInt32, i.toNat < e →
      ∃ kp, lib.deriveWalletKeypair w.hdScheme w.masterSeed i = .ok kp) (hfuel : e < fuel) :
    ∃ w' r, rescan lib chain gapLimit fuel w = (w', .ok r) := by
  obtain ⟨w₁, hloop⟩ := rescanLoop_returns hlast hends hderive (scanStart_at hcount)
    (Nat.zero_le e) (scanned_zero w) (by omega : e - 0 < fuel)
  rw [rescan, if_neg (not_or.mpr ⟨hscheme, hseed⟩)]
  rw [scanStart] at hloop
  simp only [hloop]
  exact ⟨_, _, rfl⟩

/-! ## A seed with an imported key -/

/-- Of the numbers up to the end only one is used. -/
theorem ends_of_single {k gap : Nat} (hused : ∀ i < k + gap + 1, used i = decide (i = k))
    (hstart : start ≤ k + 1) (hlate : k < max start gap) (hgap : 0 < gap) :
    Ends used start gap (k + gap + 1) := by
  have hself : trailing used (k + 1) = 0 :=
    trailing_succ_of_used ((hused k (by omega)).trans (decide_eq_true rfl))
  have hrun : ∀ j ≤ gap, trailing used (k + j + 1) = j := by
    intro j
    induction j with
    | zero => exact fun _ => hself
    | succ j ih =>
        intro hj
        have hunused : used (k + j + 1) = false :=
          (hused _ (by omega)).trans (decide_eq_false (by omega))
        rw [← Nat.add_assoc, trailing_succ_of_unused hunused, ih (by omega)]
  refine ⟨⟨by omega, (hrun gap (Nat.le_refl _)).ge⟩, fun m hm hstops => ?_⟩
  obtain ⟨hfrom, hlong⟩ := hstops
  by_cases hle : m ≤ k
  · have hshort : trailing used m ≤ m := trailing_le m
    omega
  · obtain ⟨j, rfl⟩ := Nat.exists_eq_add_of_lt (Nat.lt_of_not_le hle)
    rw [hrun j (by omega)] at hlong
    omega

/-- The address of an index of the sample seed. -/
def sampleAddress (index : Nat) : Vec UInt8 where
  toList := sampleLib.keyAddress (sampleKey (2 ^ 31 + 4 + index)).pub
  size_lt := by
    rw [KeyLib.keyAddress, length_base64Encode, (sampleLib.keyHash _).length_eq]
    decide

theorem sampleAddress_toList (index : Nat) : (sampleAddress index).toList
    = sampleLib.keyAddress (sampleKey (2 ^ 31 + 4 + index)).pub := by
  rw [sampleAddress]

/-- A chain whose only output pays an index of the sample seed. -/
def payingChain (index : Nat) : ChainReader where
  approved := true
  bestHeight := 1
  utxo := ∅
  order := Chainstate.outpointOrder
  blocks := [⟨{}, ⟨[⟨1, ⟨[], by decide⟩, ⟨[⟨1, sampleAddress index⟩], by simp⟩, 0⟩], by simp⟩⟩]

theorem usedIndex_payingChain (hscheme : w.hdScheme = .bip32) (hseed : w.masterSeed = sampleSeed)
    {i k : Nat} (hi : i < 2 ^ 31) (hk : k < 2 ^ 31) :
    w.usedIndex sampleLib (payingChain k) i = decide (i = k) := by
  have hlt : (UInt32.ofNat i).toNat = i := Nat.mod_eq_of_lt (by omega)
  have hderive : sampleLib.deriveWalletKeypair .bip32 sampleSeed (UInt32.ofNat i)
      = .ok (sampleKey (2 ^ 31 + 4 + (UInt32.ofNat i).toNat)) := sampleLib_derive
    (UInt32.lt_iff_toNat_lt.mpr (hlt.symm ▸ hi))
  rw [hlt] at hderive
  rw [usedIndex, hscheme, hseed, hderive]
  simp only [derivedActivity_eq, payingChain, List.any_cons, List.any_nil, Bool.or_false]
  have hequal : addressesEqual sampleLib.sha256 (sampleAddress k).toList
      (sampleLib.keyAddress (sampleKey (2 ^ 31 + 4 + i)).pub) = true ↔
      (sampleAddress k).toList = sampleLib.keyAddress (sampleKey (2 ^ 31 + 4 + i)).pub := by
    rw [KeyLib.keyAddress, addressesEqual_base64_iff, sampleAddress_toList, KeyLib.keyAddress,
      canonicalizeAddress_base64, Option.some_inj]
  rw [Bool.eq_iff_iff, hequal, decide_eq_true_iff, sampleAddress_toList]
  constructor
  · intro heq
    have hsame := sampleLib_keyAddress_inj (by omega) (by omega) heq
    omega
  · rintro rfl
    rfl

/-- The wallet of the sample seed after a foreign key was imported. -/
theorem exists_importedWallet : ∃ w : HdWallet, w.Matched sampleLib ∧ w.hdScheme = .bip32 ∧
    w.masterSeed = sampleSeed ∧ w.nextHdIndex = 1 ∧
    w.addresses = [sampleLib.keyAddress (sampleKey (2 ^ 31 + 4)).pub,
      sampleLib.keyAddress (sampleKey 1).pub] := by
  obtain ⟨w, -, hfresh, haddresses⟩ := exists_sampleWallet
  have hnew : sampleLib.keyAddress (sampleKey 1).pub ∉ w.addresses := fun hmem => by
    rw [haddresses, List.mem_singleton] at hmem
    have hsame := sampleLib_keyAddress_inj (by omega) (by omega) hmem
    omega
  obtain ⟨w', -, hmatched, haddresses', hscheme, hseed, hnext⟩ :=
    WalletSession.opened_importPrivateKeyHex hfresh.matched (by rw [haddresses]; nofun)
      hexDecode_foreignHex (length_toPaddedBytes 32 _)
      (sampleLib_importedKey (by omega) (by omega)) hnew
  exact ⟨w', hmatched, hscheme.trans hfresh.scheme_eq, hseed.trans hfresh.seed_eq,
    hnext.trans hfresh.next_eq, by rw [haddresses', haddresses, List.singleton_append]⟩

theorem reached_payingChain (hscheme : w.hdScheme = .bip32) (hseed : w.masterSeed = sampleSeed)
    {k gap : Nat} (hk : k < 2 ^ 31) (hgap : k < gap) :
    Reached (w.usedIndex sampleLib (payingChain k)) gap k :=
  ⟨(usedIndex_payingChain hscheme hseed hk hk).trans (decide_eq_true rfl), fun _ hj => by omega⟩

/-- A rescan of that wallet returns. -/
theorem rescan_payingChain (haddresses : w.addresses.length = 2) (hnext : w.nextHdIndex = 1)
    (hscheme : w.hdScheme = .bip32) (hseed : w.masterSeed = sampleSeed) {k : Nat} (hpos : 0 < k)
    (hlate : k < max 2 (effectiveGap gapLimit)) (hsmall : k + effectiveGap gapLimit + 1 < 2 ^ 31) :
    Ends (w.usedIndex sampleLib (payingChain k)) w.scanFrom (effectiveGap gapLimit)
      (k + effectiveGap gapLimit + 1) ∧
    ∃ w' r, rescan sampleLib (payingChain k) gapLimit (k + effectiveGap gapLimit + 2) w
      = (w', .ok r) := by
  have hgap := effectiveGap_pos gapLimit
  have hfrom : w.scanFrom = 2 := by
    rw [scanFrom, hnext, haddresses]
    rfl
  have hends : Ends (w.usedIndex sampleLib (payingChain k)) w.scanFrom (effectiveGap gapLimit)
      (k + effectiveGap gapLimit + 1) := by
    rw [hfrom]
    exact ends_of_single (fun i hi => usedIndex_payingChain hscheme hseed (by omega) (by omega))
      (by omega) hlate hgap
  refine ⟨hends, rescan_returns (by rw [hscheme]; nofun) (hseed ▸ sampleSeed_ne_nil) (by omega)
    (by omega) hends (fun i hi => ?_) (Nat.lt_succ_self _)⟩
  rw [hscheme, hseed]
  exact ⟨_, sampleLib_derive (UInt32.lt_iff_toNat_lt.mpr (by
    have hhardened : bip32Hardened.toNat = 2 ^ 31 := rfl
    omega))⟩

/-- The index at the position of the imported key is used, and not found. -/
theorem not_rescan_complete : ¬ ∀ (lib : KeyLib) (chain : ChainReader) (gapLimit : UInt32)
    (fuel : Nat) (w w' : HdWallet) (r : Bool × Nat), lib.Separates w.hdScheme w.masterSeed →
      w.Matched lib → w.addresses.length < 2 ^ 32 →
        rescan lib chain gapLimit fuel w = (w', .ok r) →
          w'.Complete lib chain (effectiveGap gapLimit) := by
  intro hall
  obtain ⟨w, hmatched, hscheme, hseed, hnext, haddresses⟩ := exists_importedWallet
  have hlength : w.addresses.length = 2 := by
    rw [haddresses]
    rfl
  have hgap : effectiveGap 2 = 2 := rfl
  obtain ⟨-, w', r, hrescan⟩ := rescan_payingChain hlength hnext hscheme
    hseed Nat.one_pos (by rw [hgap]; decide) (by rw [hgap]; decide)
  have hcomplete := hall sampleLib (payingChain 1) 2 _ w w' r
    (by rw [hscheme, hseed]; exact sampleLib_separates) hmatched (by omega) hrescan
  have hscanned : ∃ n, Scanned sampleLib w n w' := by
    rcases rescan_scanned (by omega) hrescan with ⟨e, -, hscanned, -⟩ | ⟨-, hscanned, -⟩
    · exact ⟨_, hscanned⟩
    · exact ⟨_, hscanned⟩
  obtain ⟨n, hscanned⟩ := hscanned
  have hderive : sampleLib.deriveWalletKeypair .bip32 sampleSeed 1 = .ok (sampleKey (2 ^ 31 + 5)) :=
    sampleLib_derive (by decide)
  have hreached : Reached (w'.usedIndex sampleLib (payingChain 1)) (effectiveGap 2) 1 := by
    rw [usedIndex_congr hscanned.scheme_eq hscanned.seed_eq]
    exact reached_payingChain hscheme hseed (by decide) (by decide)
  have hfound := hcomplete.found 1 _ hreached (by
    rw [hscanned.scheme_eq, hscanned.seed_eq, hscheme, hseed]
    exact hderive)
  rw [hscanned.mem_iff, hlength, haddresses, hscheme, hseed] at hfound
  rcases hfound with hold | ⟨j, kp, hle, -, hkey, heq⟩
  · rcases List.mem_cons.mp hold with heq | hmem
    · have hsame := sampleLib_keyAddress_inj (by omega) (by omega) heq
      omega
    · have hsame := sampleLib_keyAddress_inj (by omega) (by omega) (List.mem_singleton.mp hmem)
      omega
  · obtain ⟨hlt, rfl⟩ := sampleLib_derive_eq hkey
    have hsame := sampleLib_keyAddress_inj (by omega) (by omega) heq
    omega

/-- The index after it is found. -/
theorem rescan_complete_third : ∃ w w' r, w.addresses.length = 2 ∧
    rescan sampleLib (payingChain 2) 3 7 w = (w', .ok r) ∧
    w'.Complete sampleLib (payingChain 2) (effectiveGap 3) := by
  obtain ⟨w, -, hscheme, hseed, hnext, haddresses⟩ := exists_importedWallet
  have hlength : w.addresses.length = 2 := by
    rw [haddresses]
    rfl
  have hgap : effectiveGap 3 = 3 := rfl
  obtain ⟨hends, w', r, hrescan⟩ := rescan_payingChain hlength hnext
    hscheme hseed Nat.two_pos (by rw [hgap]; decide) (by rw [hgap]; decide)
  have hused : ∀ {i : Nat}, i < 2 ^ 31 → w.usedIndex sampleLib (payingChain 2) i = decide (i = 2) :=
    fun hi => usedIndex_payingChain hscheme hseed hi (by decide)
  refine ⟨w, w', r, hlength, hrescan, (rescan_complete_iff
    (by rw [hscheme, hseed]; exact sampleLib_separates) (by omega) hrescan).mpr
      ⟨fun i kp hlt hreached hderive => ?_, fun _ _ => ⟨6, hends⟩, fun n hn => ?_⟩⟩
  · have hself := hreached.self
    rw [hused (by omega), decide_eq_true_iff] at hself
    omega
  · rw [hn.unique hends]
    exact hused (by decide)

end HdWallet

end Cryptex
