import Cryptex.HdWallet

/-!
# The addresses of a wallet

What every call keeps of the list of keys, as long as no key is derived that
was imported before.
-/

namespace Cryptex

open Encoding

variable {lib : KeyLib}

/-! ## Addresses of keys -/

namespace KeyLib

/-- The hash of a public key. -/
def keyHash (lib : KeyLib) (pub : Bytes) : Payload := lib.ripemd160 (Hash256.toBytes (lib.sha256 pub))

/-- The address under which the wallet keeps a public key. -/
def keyAddress (lib : KeyLib) (pub : Bytes) : Bytes := base64Encode (lib.keyHash pub).bytes

theorem pubkeyToAddress_eq (pub : Bytes) :
    lib.pubkeyToAddress pub = some (Format.base58check.encode lib.sha256 (lib.keyHash pub)) := by
  have hbase64 : base64Encode (lib.keyHash pub).bytes
      = Format.base64.encode lib.sha256 (lib.keyHash pub) := rfl
  rw [pubkeyToAddress, ← keyHash, hbase64, addressTo_encode]

theorem walletAddress_eq (pub : Bytes) : lib.walletAddress pub = .ok (lib.keyAddress pub) := by
  rw [walletAddress, pubkeyToAddress_eq, Option.bind_some, canonicalizeAddress_encode]
  rfl

theorem derivePub_of_keypairFromSecret {secret : Hash256} {kp : Keypair}
    (h : lib.keypairFromSecret secret = .ok (some kp)) : lib.derivePub kp.priv = some kp.pub := by
  rw [keypairFromSecret] at h
  split at h
  · cases h
  · split at h
    · cases h
    · split at h
      · cases h
      · next hpub =>
          cases h
          exact hpub

theorem derivePub_of_legacyAttempts {seed : Bytes} {index : UInt32} {kp : Keypair} :
    ∀ {attempts : List Nat}, lib.legacyAttempts seed index attempts = .ok kp →
      lib.derivePub kp.priv = some kp.pub
  | [], h => by cases h
  | attempt :: rest, h => by
      rw [legacyAttempts] at h
      split at h
      · cases h
      · next hkey =>
          cases h
          exact derivePub_of_keypairFromSecret hkey
      · exact derivePub_of_legacyAttempts h

theorem derivePub_of_deriveBip32Keypair {seed : Bytes} {index : UInt32} {kp : Keypair}
    (h : lib.deriveBip32Keypair seed index = .ok kp) : lib.derivePub kp.priv = some kp.pub := by
  rw [deriveBip32Keypair] at h
  split at h
  · cases h
  · obtain ⟨master, -, h⟩ := Bridge.bind_eq_ok.mp h
    obtain ⟨account, -, h⟩ := Bridge.bind_eq_ok.mp h
    obtain ⟨external, -, h⟩ := Bridge.bind_eq_ok.mp h
    obtain ⟨child, -, h⟩ := Bridge.bind_eq_ok.mp h
    obtain ⟨key, hkey, h⟩ := Bridge.bind_eq_ok.mp h
    cases key with
    | none => cases h
    | some kp' =>
        cases h
        exact derivePub_of_keypairFromSecret hkey

/-- A derived key decodes to its public key. -/
theorem derivePub_of_derive {scheme : HdScheme} {seed : Bytes} {index : UInt32} {kp : Keypair}
    (h : lib.deriveWalletKeypair scheme seed index = .ok kp) :
    lib.derivePub kp.priv = some kp.pub := by
  cases scheme with
  | none => cases h
  | legacyCxhd => exact derivePub_of_legacyAttempts h
  | bip32 => exact derivePub_of_deriveBip32Keypair h

/-- Different indices of a seed have different addresses. -/
def Separates (lib : KeyLib) (scheme : HdScheme) (seed : Bytes) : Prop :=
  ∀ {i j : UInt32} {kp kp' : Keypair}, lib.deriveWalletKeypair scheme seed i = .ok kp →
    lib.deriveWalletKeypair scheme seed j = .ok kp' →
      lib.keyAddress kp.pub = lib.keyAddress kp'.pub → i = j

end KeyLib

/-! ## Wallets with matching lists -/

namespace HdWallet

/-- At every position the three lists hold one key, and the primary key is the
first. -/
structure Matched (lib : KeyLib) (w : HdWallet) : Prop where
  pubkeys : w.privkeys.map lib.derivePub = w.pubkeys.map some
  addresses : w.pubkeys.map lib.keyAddress = w.addresses
  primary : w.syncPrimary = w

theorem Matched.length_eq {w : HdWallet} (h : w.Matched lib) :
    w.privkeys.length = w.addresses.length := by
  have hpub := congrArg List.length h.pubkeys
  rw [List.length_map, List.length_map] at hpub
  rw [hpub, ← h.addresses, List.length_map]

theorem Matched.exists_pub {w : HdWallet} (h : w.Matched lib) {a : Bytes} (ha : a ∈ w.addresses) :
    ∃ pub, lib.keyAddress pub = a := by
  rw [← h.addresses] at ha
  obtain ⟨pub, -, rfl⟩ := List.mem_map.mp ha
  exact ⟨pub, rfl⟩

theorem syncPrimary_syncPrimary (w : HdWallet) : w.syncPrimary.syncPrimary = w.syncPrimary := rfl

/-- A key that decodes to its public key can be appended. -/
theorem Matched.appendKey {w : HdWallet} (h : w.Matched lib) {kp : Keypair}
    (hpub : lib.derivePub kp.priv = some kp.pub) :
    ∃ w', HdWallet.appendKey lib kp w = .ok w' ∧ w'.Matched lib ∧
      w'.addresses = w.addresses ++ [lib.keyAddress kp.pub] ∧ w'.hdScheme = w.hdScheme ∧
      w'.masterSeed = w.masterSeed ∧ w'.nextHdIndex = w.nextHdIndex := by
  rw [HdWallet.appendKey, KeyLib.walletAddress_eq]
  refine ⟨_, rfl, ⟨?_, ?_, rfl⟩, rfl, rfl, rfl, rfl⟩
  · change (w.privkeys ++ [kp.priv]).map _ = (w.pubkeys ++ [kp.pub]).map _
    rw [List.map_append, List.map_append, h.pubkeys, List.map_singleton, hpub]
    rfl
  · change (w.pubkeys ++ [kp.pub]).map _ = w.addresses ++ [lib.keyAddress kp.pub]
    rw [List.map_append, h.addresses]
    rfl

theorem restoreKeys_eq : ∀ {privkeys pubkeys : List Bytes},
    privkeys.map lib.derivePub = pubkeys.map some →
      restoreKeys lib privkeys = .ok (pubkeys, pubkeys.map lib.keyAddress)
  | [], [], _ => rfl
  | [], _ :: _, h => by cases h
  | _ :: _, [], h => by cases h
  | key :: privkeys, pub :: pubkeys, h => by
      rw [List.map_cons, List.map_cons, List.cons.injEq] at h
      rw [restoreKeys, h.1, restoreKeys_eq h.2]
      simp only [KeyLib.walletAddress_eq]
      rfl

/-- A wallet is what its payload restores. -/
theorem Matched.restore {w : HdWallet} (h : w.Matched lib) (hne : w.addresses ≠ []) :
    w.payload.restore lib = .ok w := by
  have hkeys : w.payload.privkeys ≠ [] := fun hnil => hne (List.eq_nil_of_length_eq_zero (by
    rw [← h.length_eq]
    exact congrArg List.length hnil))
  have hrestored : restoreKeys lib w.payload.privkeys = .ok (w.pubkeys, w.addresses) := by
    rw [← h.addresses]
    exact restoreKeys_eq h.pubkeys
  rw [WalletPayload.restore, if_neg hkeys, hrestored]
  exact congrArg Except.ok h.primary

/-! ## Where the addresses come from -/

variable {scheme : HdScheme} {seed : Bytes} {imported : List Bytes} {w : HdWallet}

/-- The addresses of a wallet of `seed`: pairwise different, and each either
imported or of an index below `bound`. -/
structure Sourced (lib : KeyLib) (scheme : HdScheme) (seed : Bytes) (imported : List Bytes)
    (bound : Nat) (w : HdWallet) : Prop where
  scheme_eq : w.hdScheme = scheme
  seed_eq : w.masterSeed = seed
  matched : w.Matched lib
  ne_nil : w.addresses ≠ []
  nodup : w.addresses.Nodup
  bound_le : bound ≤ w.addresses.length
  source : ∀ a ∈ w.addresses, a ∈ imported ∨ ∃ (i : UInt32) (kp : Keypair), i.toNat < bound ∧
    lib.deriveWalletKeypair scheme seed i = .ok kp ∧ lib.keyAddress kp.pub = a

theorem Sourced.mono {bound : Nat} (h : Sourced lib scheme seed imported bound w)
    (more : List Bytes) : Sourced lib scheme seed (imported ++ more) bound w :=
  { h with
    source := fun a ha => (h.source a ha).imp_left fun himported =>
      List.mem_append_left _ himported }

theorem Sourced.raise {bound bound' : Nat} (h : Sourced lib scheme seed imported bound w)
    (hle : bound ≤ bound') (hlength : bound' ≤ w.addresses.length) :
    Sourced lib scheme seed imported bound' w :=
  { h with
    bound_le := hlength
    source := fun a ha => (h.source a ha).imp_right fun ⟨i, kp, hi, hkey⟩ =>
      ⟨i, kp, lt_of_lt_of_le hi hle, hkey⟩ }

theorem Sourced.withNext {bound : Nat} (h : Sourced lib scheme seed imported bound w) (n : UInt32) :
    Sourced lib scheme seed imported bound { w with nextHdIndex := n } :=
  { scheme_eq := h.scheme_eq
    seed_eq := h.seed_eq
    matched :=
      { pubkeys := h.matched.pubkeys
        addresses := h.matched.addresses
        primary := congrArg (fun w : HdWallet => { w with nextHdIndex := n }) h.matched.primary }
    ne_nil := h.ne_nil
    nodup := h.nodup
    bound_le := h.bound_le
    source := h.source }

theorem Sourced.withLabels {bound : Nat} (h : Sourced lib scheme seed imported bound w)
    (labels : FinMap Bytes Bytes) :
    Sourced lib scheme seed imported bound { w with labels := labels } :=
  { scheme_eq := h.scheme_eq
    seed_eq := h.seed_eq
    matched :=
      { pubkeys := h.matched.pubkeys
        addresses := h.matched.addresses
        primary := congrArg (fun w : HdWallet => { w with labels := labels }) h.matched.primary }
    ne_nil := h.ne_nil
    nodup := h.nodup
    bound_le := h.bound_le
    source := h.source }

/-- A key with a new address is appended. -/
theorem Sourced.append {bound bound' : Nat} {imported' : List Bytes}
    (h : Sourced lib scheme seed imported bound w) {kp : Keypair}
    (hpub : lib.derivePub kp.priv = some kp.pub) (hnew : lib.keyAddress kp.pub ∉ w.addresses)
    (hle : bound ≤ bound') (hlength : bound' ≤ w.addresses.length + 1)
    (himported : ∀ a ∈ imported, a ∈ imported')
    (hsource : lib.keyAddress kp.pub ∈ imported' ∨ ∃ (i : UInt32) (kp' : Keypair),
      i.toNat < bound' ∧ lib.deriveWalletKeypair scheme seed i = .ok kp' ∧
      lib.keyAddress kp'.pub = lib.keyAddress kp.pub) :
    ∃ w', appendKey lib kp w = .ok w' ∧ Sourced lib scheme seed imported' bound' w' ∧
      w'.addresses.length = w.addresses.length + 1 ∧ w'.nextHdIndex = w.nextHdIndex := by
  obtain ⟨w', happend, hmatched, haddresses, hscheme, hseed, hnext⟩ := h.matched.appendKey hpub
  have hlength' : w'.addresses.length = w.addresses.length + 1 := by
    rw [haddresses, List.length_append, List.length_singleton]
  refine ⟨w', happend, ⟨hscheme.trans h.scheme_eq, hseed.trans h.seed_eq, hmatched, ?_, ?_,
    hlength'.symm ▸ hlength, ?_⟩, hlength', hnext⟩
  · rw [haddresses]
    exact List.append_ne_nil_of_right_ne_nil _ (List.cons_ne_nil _ _)
  · rw [haddresses]
    exact List.nodup_append.mpr ⟨h.nodup, List.nodup_singleton _, fun a ha b hb hab => by
      rw [List.mem_singleton.mp hb] at hab
      exact hnew (hab ▸ ha)⟩
  · intro a ha
    rw [haddresses, List.mem_append, List.mem_singleton] at ha
    rcases ha with hold | rfl
    · rcases h.source a hold with hmem | ⟨i, kp', hi, hkey⟩
      · exact .inl (himported a hmem)
      · exact .inr ⟨i, kp', lt_of_lt_of_le hi hle, hkey⟩
    · exact hsource

/-- The key of an index that was not reached is appended. -/
theorem Sourced.appendDerived {bound : Nat} (h : Sourced lib scheme seed imported bound w)
    (hsep : lib.Separates scheme seed) {index : UInt32} {kp : Keypair} (hbound : bound ≤ index.toNat)
    (hindex : index.toNat ≤ w.addresses.length)
    (hderive : lib.deriveWalletKeypair scheme seed index = .ok kp)
    (hfresh : lib.keyAddress kp.pub ∉ imported) :
    ∃ w', appendKey lib kp w = .ok w' ∧
      Sourced lib scheme seed imported (index.toNat + 1) w' ∧
      w'.addresses.length = w.addresses.length + 1 ∧ w'.nextHdIndex = w.nextHdIndex := by
  have hnew : lib.keyAddress kp.pub ∉ w.addresses := fun hmem => by
    rcases h.source _ hmem with himported | ⟨i, kp', hi, hderive', heq⟩
    · exact hfresh himported
    · have hsame := hsep hderive' hderive heq
      rw [hsame] at hi
      omega
  exact h.append (KeyLib.derivePub_of_derive hderive) hnew (Nat.le_succ_of_le hbound)
    (Nat.succ_le_succ hindex) (fun _ ha => ha)
    (.inr ⟨index, kp, Nat.lt_succ_self _, hderive, rfl⟩)

/-- A key with an address that the wallet does not hold is imported. -/
theorem Sourced.appendImported {bound : Nat} (h : Sourced lib scheme seed imported bound w)
    {kp : Keypair} (hpub : lib.derivePub kp.priv = some kp.pub)
    (hnew : lib.keyAddress kp.pub ∉ w.addresses) :
    ∃ w', appendKey lib kp w = .ok w' ∧
      Sourced lib scheme seed (imported ++ [lib.keyAddress kp.pub]) bound w' ∧
      w'.addresses.length = w.addresses.length + 1 ∧ w'.nextHdIndex = w.nextHdIndex :=
  h.append hpub hnew (Nat.le_refl _) (Nat.le_succ_of_le h.bound_le)
    (fun _ ha => List.mem_append_left _ ha)
    (.inl (List.mem_append_right _ (List.mem_singleton.mpr rfl)))

/-! ## The operations -/

/-- The wallets that `load` finds: every index below `next_hd_index_` is
reached, and no other. -/
abbrev Steady (lib : KeyLib) (scheme : HdScheme) (seed : Bytes) (imported : List Bytes)
    (w : HdWallet) : Prop :=
  Sourced lib scheme seed imported w.nextHdIndex.toNat w

/-- An operation on such a wallet leaves one of its kind before it saves it,
and distinct addresses in any case. -/
structure Leaves (lib : KeyLib) (scheme : HdScheme) (seed : Bytes) (imported given : List Bytes)
    {α : Type} (out : HdWallet × Except Stop (Bool × α)) : Prop where
  sourced : ∃ imported' bound, Sourced lib scheme seed imported' bound out.1
  saved : ∀ r, out.2 = .ok (true, r) → Steady lib scheme seed (imported ++ given) out.1

theorem toNat_add_one {n : UInt32} (h : n.toNat + 1 < 2 ^ 32) : (n + 1).toNat = n.toNat + 1 := by
  rw [UInt32.toNat_add, UInt32.toNat_one]
  exact Nat.mod_eq_of_lt h

theorem Sourced.deriveNext (h : Steady lib scheme seed imported w) (hsep : lib.Separates scheme seed)
    (hsmall : w.addresses.length + 1 < 2 ^ 32)
    (hspared : ∀ kp, lib.deriveWalletKeypair scheme seed w.nextHdIndex = .ok kp →
      lib.keyAddress kp.pub ∉ imported) {w' : HdWallet} (hnext : w.deriveNext lib = .ok w') :
    Steady lib scheme seed imported w' ∧ w'.addresses.length = w.addresses.length + 1 ∧
      w'.nextHdIndex = w.nextHdIndex + 1 := by
  rw [HdWallet.deriveNext] at hnext
  split at hnext
  · cases hnext
  · next kp hderive =>
      rw [h.scheme_eq, h.seed_eq] at hderive
      have hle := h.bound_le
      obtain ⟨w'', happend, hsourced, hlength, hindex⟩ :=
        (h.withNext (w.nextHdIndex + 1)).appendDerived hsep (Nat.le_refl _) hle hderive
          (hspared kp hderive)
      rw [happend] at hnext
      cases hnext
      refine ⟨?_, hlength, hindex⟩
      rw [Steady, hindex, toNat_add_one (by omega)]
      exact hsourced

/-- The index that `add_address` derives, as a list. -/
theorem addAddress_leaves (h : Steady lib scheme seed imported w) (hsep : lib.Separates scheme seed)
    (hseed : seed ≠ []) (hscheme : scheme ≠ .none) (randomSeed : Bytes)
    (hsmall : w.addresses.length + 1 < 2 ^ 32)
    (hspared : ∀ kp, lib.deriveWalletKeypair scheme seed w.nextHdIndex = .ok kp →
      lib.keyAddress kp.pub ∉ imported) :
    Leaves lib scheme seed imported [] (addAddress lib randomSeed w) := by
  have hwith : w.withSeed randomSeed = w := by
    rw [withSeed, if_neg (h.seed_eq ▸ hseed), if_neg (h.scheme_eq ▸ hscheme)]
  rw [addAddress]
  simp only [hwith]
  split
  · exact ⟨⟨_, _, h⟩, nofun⟩
  · next w' hnext =>
      obtain ⟨hsteady, -, -⟩ := h.deriveNext hsep hsmall hspared hnext
      exact ⟨⟨_, _, hsteady⟩, fun _ _ => hsteady.mono []⟩

theorem fillPool_sourced (hsep : lib.Separates scheme seed) : ∀ {missing : Nat} {w : HdWallet},
    Steady lib scheme seed imported w → w.addresses.length + missing < 2 ^ 32 →
    (∀ k < missing, ∀ kp, lib.deriveWalletKeypair scheme seed
      (w.nextHdIndex + UInt32.ofNat k) = .ok kp → lib.keyAddress kp.pub ∉ imported) →
    Steady lib scheme seed imported (fillPool lib missing w).1
  | 0, _, h, _, _ => h
  | missing + 1, w, h, hsmall, hspared => by
      rw [fillPool]
      split
      · exact h
      · next w' hnext =>
          obtain ⟨hsteady, hlength, hindex⟩ := h.deriveNext hsep (by omega)
            (fun kp hderive => hspared 0 (Nat.succ_pos _) kp (by
              rw [show UInt32.ofNat 0 = 0 from rfl, UInt32.add_zero]
              exact hderive)) hnext
          refine fillPool_sourced hsep hsteady (by omega) fun k hk kp hderive => ?_
          refine hspared (k + 1) (Nat.succ_lt_succ hk) kp ?_
          rwa [hindex, UInt32.add_assoc, UInt32.add_comm 1, ← UInt32.ofNat_one,
            ← UInt32.ofNat_add] at hderive

/-- The number of addresses that `ensure_unused_pool` adds. -/
def poolMissing (lib : KeyLib) (chain : ChainReader) (minUnused : UInt32) (w : HdWallet) : Nat :=
  match countUnused lib chain w.addresses with
  | .error _ => 0
  | .ok unused => (if minUnused = 0 then 1 else minUnused).toNat - unused

theorem ensureUnusedPool_leaves (h : Steady lib scheme seed imported w)
    (hsep : lib.Separates scheme seed) (chain : ChainReader) (minUnused : UInt32)
    (hsmall : w.addresses.length + poolMissing lib chain minUnused w < 2 ^ 32)
    (hspared : ∀ k < poolMissing lib chain minUnused w, ∀ kp,
      lib.deriveWalletKeypair scheme seed (w.nextHdIndex + UInt32.ofNat k) = .ok kp →
        lib.keyAddress kp.pub ∉ imported) :
    Leaves lib scheme seed imported [] (ensureUnusedPool lib chain minUnused w) := by
  rw [ensureUnusedPool]
  simp only
  split
  · exact ⟨⟨_, _, h⟩, nofun⟩
  · split
    · exact ⟨⟨_, _, h⟩, nofun⟩
    · next unused hunused =>
        rw [poolMissing, hunused] at hsmall hspared
        have hfilled := fillPool_sourced hsep h hsmall hspared
        split
        · next hfill =>
            rw [hfill] at hfilled
            exact ⟨⟨_, _, hfilled⟩, nofun⟩
        · next hfill =>
            rw [hfill] at hfilled
            exact ⟨⟨_, _, hfilled⟩, fun _ _ => hfilled.mono []⟩

/-- The indices that the loop of `rescan` goes through. -/
def visited (lib : KeyLib) (scheme : HdScheme) (seed : Bytes) (chain : ChainReader)
    (gapLimit : UInt32) : Nat → Scan → List UInt32
  | 0, _ => []
  | fuel + 1, s =>
      if s.index < s.targetIndex ∨ s.trailingUnused < gapLimit then
        match lib.deriveWalletKeypair scheme seed s.index with
        | .error _ => []
        | .ok kp =>
            match derivedActivity lib chain kp with
            | .error _ => [s.index]
            | .ok active => s.index :: visited lib scheme seed chain gapLimit fuel (s.next gapLimit active)
      else []

@[simp] theorem Scan.next_index (gapLimit : UInt32) (active : Bool) (s : Scan) :
    (s.next gapLimit active).index = s.index + 1 := by
  cases active
  · rfl
  · rfl

/-- One round of the loop, with `count` addresses at its start. -/
theorem Sourced.adopt {bound count : Nat} (h : Sourced lib scheme seed imported bound w)
    (hsep : lib.Separates scheme seed) {index : UInt32} {kp : Keypair}
    (hcount : w.addresses.length = max count index.toNat)
    (hderive : lib.deriveWalletKeypair scheme seed index = .ok kp)
    (hfresh : count ≤ index.toNat → lib.keyAddress kp.pub ∉ imported) :
    ∃ w' bound', HdWallet.adopt lib index kp w = .ok w' ∧
      Sourced lib scheme seed imported bound' w' ∧
      w'.addresses.length = max count (index.toNat + 1) := by
  have hbound := h.bound_le
  by_cases hlast : index.toNat ≥ w.addresses.length
  · obtain ⟨w', happend, hsourced, hlength, -⟩ :=
      h.appendDerived hsep (by omega) (by omega) hderive (hfresh (by omega))
    refine ⟨w', _, ?_, hsourced, by omega⟩
    rw [HdWallet.adopt, if_pos hlast, happend]
  · refine ⟨w, bound, ?_, h, by omega⟩
    rw [HdWallet.adopt, if_neg hlast]

/-- The addresses that the loop appends are of the indices from `count` on, in
order. -/
theorem rescanLoop_sourced (hsep : lib.Separates scheme seed) {chain : ChainReader}
    {gapLimit : UInt32} {count : Nat} : ∀ {fuel : Nat} {s : Scan} {w : HdWallet} {bound : Nat},
    Sourced lib scheme seed imported bound w → w.addresses.length = max count s.index.toNat →
    w.addresses.length + ((visited lib scheme seed chain gapLimit fuel s).filter
      (fun i => count ≤ i.toNat)).length + 1 < 2 ^ 32 →
    (∀ i ∈ visited lib scheme seed chain gapLimit fuel s, count ≤ i.toNat → ∀ kp,
      lib.deriveWalletKeypair scheme seed i = .ok kp → lib.keyAddress kp.pub ∉ imported) →
    ∃ bound', Sourced lib scheme seed imported bound' (rescanLoop lib chain gapLimit fuel s w).1 ∧
      (rescanLoop lib chain gapLimit fuel s w).1.addresses.length < 2 ^ 32
  | 0, _, w, bound, h, _, hsmall, _ => by
      have hlt : w.addresses.length < 2 ^ 32 := by omega
      exact ⟨bound, h, hlt⟩
  | fuel + 1, s, w, bound, h, hcount, hsmall, hspared => by
      have hlt : w.addresses.length < 2 ^ 32 := by omega
      rw [rescanLoop]
      rw [visited] at hsmall hspared
      split
      · next hgo =>
          rw [if_pos hgo] at hsmall hspared
          split
          · exact ⟨bound, h, hlt⟩
          · next kp hderive =>
              rw [h.scheme_eq, h.seed_eq] at hderive
              rw [hderive] at hsmall hspared
              simp only at hsmall hspared
              have hfresh : count ≤ s.index.toNat → lib.keyAddress kp.pub ∉ imported := by
                intro hle
                refine hspared s.index ?_ hle kp hderive
                split
                · exact List.mem_singleton.mpr rfl
                · exact List.mem_cons_self
              obtain ⟨w', bound', hadopt, hsourced, hcount'⟩ := h.adopt hsep hcount hderive hfresh
              rw [hadopt]
              simp only
              cases hactivity : derivedActivity lib chain kp with
              | error e =>
                  have hlt' : w'.addresses.length < 2 ^ 32 := by omega
                  exact ⟨bound', hsourced, hlt'⟩
              | ok active =>
                  rw [hactivity] at hsmall hspared
                  simp only [List.filter_cons] at hsmall
                  have hindex : (s.next gapLimit active).index.toNat = s.index.toNat + 1 := by
                    rw [Scan.next_index, toNat_add_one (by omega)]
                  refine rescanLoop_sourced hsep hsourced (by rw [hindex]; exact hcount') ?_
                    fun i hi hle => hspared i (List.mem_cons_of_mem _ hi) hle
                  by_cases hle : count ≤ s.index.toNat
                  · rw [if_pos (decide_eq_true hle), List.length_cons] at hsmall
                    omega
                  · rw [if_neg (by simpa using hle)] at hsmall
                    omega
      · exact ⟨bound, h, hlt⟩

/-- The counters with which `rescan` starts. -/
def scanStart (w : HdWallet) : Scan where
  index := 0
  targetIndex := max w.nextHdIndex (UInt32.ofNat w.addresses.length)
  trailingUnused := 0

theorem rescan_leaves (h : Steady lib scheme seed imported w) (hsep : lib.Separates scheme seed)
    (chain : ChainReader) (gapLimit : UInt32) (fuel : Nat)
    (hsmall : w.addresses.length + ((visited lib scheme seed chain
      (if gapLimit = 0 then 1 else gapLimit) fuel w.scanStart).filter
        (fun i => w.addresses.length ≤ i.toNat)).length + 1 < 2 ^ 32)
    (hspared : ∀ i ∈ visited lib scheme seed chain (if gapLimit = 0 then 1 else gapLimit) fuel
      w.scanStart, w.addresses.length ≤ i.toNat → ∀ kp,
        lib.deriveWalletKeypair scheme seed i = .ok kp → lib.keyAddress kp.pub ∉ imported) :
    Leaves lib scheme seed imported [] (rescan lib chain gapLimit fuel w) := by
  rw [rescan]
  split
  · exact ⟨⟨_, _, h⟩, nofun⟩
  · obtain ⟨bound, hsourced, hlt⟩ := rescanLoop_sourced hsep h (by
      rw [scanStart, UInt32.toNat_zero, Nat.max_zero]) hsmall hspared
    rw [scanStart] at hsourced hlt
    simp only
    split
    · next hloop =>
        rw [hloop] at hsourced
        exact ⟨⟨_, _, hsourced⟩, nofun⟩
    · next w' hloop =>
        rw [hloop] at hsourced hlt
        have hsteady : Steady lib scheme seed imported
            { w' with nextHdIndex := UInt32.ofNat w'.addresses.length } := by
          have hnext : (UInt32.ofNat w'.addresses.length).toNat = w'.addresses.length :=
            Nat.mod_eq_of_lt hlt
          rw [Steady, hnext]
          exact (hsourced.raise hsourced.bound_le (Nat.le_refl _)).withNext _
        exact ⟨⟨_, _, hsteady⟩, fun _ _ => hsteady.mono []⟩

/-! ### Imported keys and the primary address -/

/-- The addresses of the keys that a call gives to the wallet when it
returns. -/
def importedAddress (lib : KeyLib) (privateKeyHex : Bytes) : List Bytes :=
  match hexDecode privateKeyHex with
  | none => []
  | some raw =>
      match lib.keypairFromSecret (Hash256.ofBytes raw) with
      | .ok (some kp) => [lib.keyAddress kp.pub]
      | _ => []

theorem Sourced.addressesEqual_iff {bound : Nat} (h : Sourced lib scheme seed imported bound w)
    {a : Bytes} (ha : a ∈ w.addresses) (pub : Bytes) :
    addressesEqual lib.sha256 a (lib.keyAddress pub) = true ↔ a = lib.keyAddress pub := by
  obtain ⟨pub', rfl⟩ := h.matched.exists_pub ha
  rw [KeyLib.keyAddress, KeyLib.keyAddress, addressesEqual_base64_iff, canonicalizeAddress_base64,
    Option.some_inj]

theorem Sourced.withLabel {bound : Nat} (h : Sourced lib scheme seed imported bound w)
    (importedAddress label : Bytes) :
    Sourced lib scheme seed imported bound (w.withLabel lib importedAddress label) := by
  rw [HdWallet.withLabel]
  split
  · exact h
  · exact h.withLabels _

theorem withLabel_nextHdIndex (importedAddress label : Bytes) (w : HdWallet) :
    (w.withLabel lib importedAddress label).nextHdIndex = w.nextHdIndex := by
  rw [withLabel]
  split
  · rfl
  · rfl

theorem importPrivateKeyHex_leaves (h : Steady lib scheme seed imported w)
    (privateKeyHex label : Bytes) :
    Leaves lib scheme seed imported (importedAddress lib privateKeyHex)
      (importPrivateKeyHex lib privateKeyHex label w) := by
  rw [importPrivateKeyHex, importedAddress]
  cases hexDecode privateKeyHex with
  | none => exact ⟨⟨_, _, h⟩, nofun⟩
  | some raw =>
      by_cases hlength : raw.length ≠ 32
      · simp only [if_pos hlength]
        exact ⟨⟨_, _, h⟩, nofun⟩
      · simp only [if_neg hlength]
        rcases hkey : lib.keypairFromSecret (Hash256.ofBytes raw) with e | _ | kp
        · exact ⟨⟨_, _, h⟩, nofun⟩
        · exact ⟨⟨_, _, h⟩, nofun⟩
        · simp only [KeyLib.walletAddress_eq]
          cases hfind : w.addresses.find? (addressesEqual lib.sha256 · (lib.keyAddress kp.pub)) with
          | some existing =>
              have hlabelled := h.withLabel (lib.keyAddress kp.pub) label
              refine ⟨⟨_, _, hlabelled⟩, fun _ _ => ?_⟩
              rw [Steady, withLabel_nextHdIndex]
              exact hlabelled.mono _
          | none =>
              have hnew : lib.keyAddress kp.pub ∉ w.addresses := fun hmem =>
                List.find?_eq_none.mp hfind _ hmem ((h.addressesEqual_iff hmem kp.pub).mpr rfl)
              obtain ⟨w', happend, hsourced, -, hnext⟩ :=
                h.appendImported (KeyLib.derivePub_of_keypairFromSecret hkey) hnew
              simp only [happend]
              have hlabelled := hsourced.withLabel (lib.keyAddress kp.pub) label
              refine ⟨⟨_, _, hlabelled⟩, fun _ _ => ?_⟩
              rw [Steady, withLabel_nextHdIndex, hnext]
              exact hlabelled

theorem map_rotatePrimary {α β : Type} (f : α → β) (index : Nat) (rows : List α) :
    (rotatePrimary index rows).map f = rotatePrimary index (rows.map f) := by
  rw [rotatePrimary, rotatePrimary, List.getElem?_map]
  cases rows[index]? with
  | none => rfl
  | some row => rw [Option.map_some, List.map_cons, List.eraseIdx_map]

theorem rotatePrimary_perm {α : Type} (index : Nat) (rows : List α) :
    (rotatePrimary index rows).Perm rows := by
  rw [rotatePrimary]
  split
  · exact List.Perm.refl _
  · next row hrow =>
      obtain ⟨hlt, rfl⟩ := List.getElem?_eq_some_iff.mp hrow
      exact List.getElem_cons_eraseIdx_perm hlt

theorem setPrimaryAddress_leaves (h : Steady lib scheme seed imported w) (addressValue : Bytes) :
    Leaves lib scheme seed imported [] (setPrimaryAddress lib addressValue w) := by
  rw [setPrimaryAddress]
  split
  · exact ⟨⟨_, _, h⟩, nofun⟩
  · split
    · exact ⟨⟨_, _, h⟩, nofun⟩
    · exact ⟨⟨_, _, h⟩, nofun⟩
    · next target _ index _ _ =>
        have hperm := rotatePrimary_perm index w.addresses
        have hrotated : Steady lib scheme seed imported
            { w with
              privkeys := rotatePrimary index w.privkeys
              pubkeys := rotatePrimary index w.pubkeys
              addresses := rotatePrimary index w.addresses }.syncPrimary := by
          refine ⟨h.scheme_eq, h.seed_eq, ⟨?_, ?_, rfl⟩, ?_, ?_, ?_, ?_⟩
          · change (rotatePrimary index w.privkeys).map _ = (rotatePrimary index w.pubkeys).map _
            rw [map_rotatePrimary, map_rotatePrimary, h.matched.pubkeys]
          · change (rotatePrimary index w.pubkeys).map _ = rotatePrimary index w.addresses
            rw [map_rotatePrimary, h.matched.addresses]
          · intro hnil
            change rotatePrimary index w.addresses = [] at hnil
            rw [hnil] at hperm
            exact h.ne_nil hperm.nil_eq.symm
          · exact hperm.nodup_iff.mpr h.nodup
          · exact hperm.length_eq.symm ▸ h.bound_le
          · exact fun a ha => h.source a (hperm.mem_iff.mp ha)
        exact ⟨⟨_, _, hrotated⟩, fun _ _ => hrotated.mono []⟩

/-! ## Coins -/

/-- Whether an output belongs to the wallet. -/
def owns (lib : KeyLib) (w : HdWallet) (entry : UTXOEntry) : Bool :=
  w.addresses.any (addressesEqual lib.sha256 entry.output.scriptPubKey.toList ·)

/-- The unspent outputs of the wallet, each as often as it is in the UTXO map,
that is once. -/
def ownCoins (lib : KeyLib) (w : HdWallet) (chain : ChainReader) (includeImmature : Bool) :
    List (OutPoint × UTXOEntry) :=
  (chain.order.visit chain.utxo).filter fun u =>
    w.owns lib u.2 && (includeImmature || !u.2.isCoinbase ||
      coinbaseIsMatureForSpend chain.bestHeight.toUInt32 u.2.blockHeight)

/-- Different addresses with matching keys, and every coin counted once. -/
structure Sound (lib : KeyLib) (w : HdWallet) : Prop where
  distinct : w.addresses.Nodup
  matched : w.Matched lib
  unspent : ∀ chain, (w.listUnspent lib chain).Perm
    (if chain.approved then w.ownCoins lib chain false else [])
  balance : ∀ chain, w.balanceSummary lib chain = summarize chain (w.ownCoins lib chain true)

theorem filter_or_perm {α : Type} {p q : α → Bool} : ∀ {l : List α},
    (∀ u ∈ l, p u = true → q u = true → False) →
      (l.filter fun u => p u || q u).Perm (l.filter p ++ l.filter q)
  | [], _ => List.Perm.refl _
  | u :: l, h => by
      have ih := filter_or_perm fun u' hu' => h u' (List.mem_cons_of_mem _ hu')
      rw [List.filter_cons, List.filter_cons, List.filter_cons]
      cases hp : p u
      · cases hq : q u
        · exact ih
        · exact (List.Perm.cons u ih).trans List.perm_middle.symm
      · cases hq : q u
        · exact List.Perm.cons u ih
        · exact absurd hq fun hq => h u List.mem_cons_self hp hq

/-- Disjoint selections of one list, one after the other. -/
theorem flatMap_filter_perm {κ α : Type} {p : κ → α → Bool} {l : List α} : ∀ {ks : List κ},
    ks.Nodup → (∀ k ∈ ks, ∀ k' ∈ ks, ∀ u, p k u = true → p k' u = true → k = k') →
      (ks.flatMap fun k => l.filter (p k)).Perm (l.filter fun u => ks.any (p · u))
  | [], _, _ => by rw [List.flatMap_nil, List.filter_eq_nil_iff.mpr (by simp)]
  | k :: ks, hnd, hdisj => by
      have hk := List.nodup_cons.mp hnd
      have ih := flatMap_filter_perm (l := l) hk.2 fun k hk k' hk' =>
        hdisj k (List.mem_cons_of_mem _ hk) k' (List.mem_cons_of_mem _ hk')
      have hor : (l.filter fun u => (k :: ks).any (p · u)).Perm
          (l.filter (p k) ++ l.filter fun u => ks.any (p · u)) := by
        simp only [List.any_cons]
        refine filter_or_perm fun u _ hp hq => ?_
        obtain ⟨k', hk', hp'⟩ := List.any_eq_true.mp hq
        have hsame := hdisj k List.mem_cons_self k' (List.mem_cons_of_mem _ hk') u hp hp'
        exact hk.1 (hsame ▸ hk')
      rw [List.flatMap_cons]
      exact (List.Perm.append_left _ ih).trans hor.symm

theorem listForAddress_perm (hmatched : w.Matched lib) (hnd : w.addresses.Nodup)
    (chain : ChainReader) (includeImmature : Bool) :
    (w.addresses.flatMap fun a => listForAddress lib chain a includeImmature).Perm
      (w.ownCoins lib chain includeImmature) := by
  have hperm := flatMap_filter_perm (l := chain.order.visit chain.utxo)
    (p := fun a u => addressesEqual lib.sha256 u.2.output.scriptPubKey.toList a &&
      (includeImmature || !u.2.isCoinbase ||
        coinbaseIsMatureForSpend chain.bestHeight.toUInt32 u.2.blockHeight)) hnd (by
    intro a ha a' ha' u hu hu'
    obtain ⟨pub, rfl⟩ := hmatched.exists_pub ha
    obtain ⟨pub', rfl⟩ := hmatched.exists_pub ha'
    have heq := addressesEqual_base64_iff.mp (Bool.and_eq_true_iff.mp hu).1
    have heq' := addressesEqual_base64_iff.mp (Bool.and_eq_true_iff.mp hu').1
    rw [heq, Option.some_inj] at heq'
    exact heq')
  refine hperm.trans (List.Perm.of_eq ?_)
  rw [ownCoins]
  congr 1
  funext u
  rw [owns, Bool.eq_iff_iff, List.any_eq_true, Bool.and_eq_true_iff, List.any_eq_true]
  constructor
  · rintro ⟨a, ha, hu⟩
    exact ⟨⟨a, ha, (Bool.and_eq_true_iff.mp hu).1⟩, (Bool.and_eq_true_iff.mp hu).2⟩
  · rintro ⟨⟨a, ha, hu⟩, hmature⟩
    exact ⟨a, ha, Bool.and_eq_true_iff.mpr ⟨hu, hmature⟩⟩

theorem BalanceSummary.count_comm (height : UInt32) (summary : BalanceSummary) (a b : UTXOEntry) :
    (summary.count height a).count height b = (summary.count height b).count height a := by
  rw [BalanceSummary.count, BalanceSummary.count, BalanceSummary.count, BalanceSummary.count]
  obtain ⟨spendable, immature, locked, approved⟩ := summary
  cases approved
  · simp [Int64.add_assoc, Int64.add_comm a.output.value]
  · cases a.isCoinbase && !coinbaseIsMatureForSpend height a.blockHeight <;>
      cases b.isCoinbase && !coinbaseIsMatureForSpend height b.blockHeight <;>
        simp [Int64.add_assoc, Int64.add_comm a.output.value]

theorem summarize_perm {chain : ChainReader} {coins coins' : List (OutPoint × UTXOEntry)}
    (h : coins.Perm coins') : summarize chain coins = summarize chain coins' := by
  rw [summarize, summarize]
  exact h.foldl_eq' (fun a _ b _ summary => BalanceSummary.count_comm _ summary a.2 b.2) _

theorem Sourced.sound {bound : Nat} (h : Sourced lib scheme seed imported bound w) :
    w.Sound lib where
  distinct := h.nodup
  matched := h.matched
  unspent chain := by
    rw [listUnspent]
    split
    · exact listForAddress_perm h.matched h.nodup chain false
    · exact List.Perm.refl _
  balance chain := summarize_perm (listForAddress_perm h.matched h.nodup chain true)

/-- A wallet with the key of index 0 of a seed. -/
structure Fresh (lib : KeyLib) (scheme : HdScheme) (seed : Bytes) (w : HdWallet) : Prop where
  scheme_eq : w.hdScheme = scheme
  seed_eq : w.masterSeed = seed
  next_eq : w.nextHdIndex = 1
  matched : w.Matched lib
  key : ∃ kp, lib.deriveWalletKeypair scheme seed 0 = .ok kp ∧ w.addresses = [lib.keyAddress kp.pub]

theorem createFromSeed_fresh {addressFormat : Format} {mnemonicEntropy : Bytes}
    (h : createFromSeed lib addressFormat mnemonicEntropy seed = .ok w) : w.Fresh lib .bip32 seed := by
  rw [createFromSeed, HdWallet.deriveNext] at h
  split at h
  · cases h
  · next kp hderive =>
      rw [appendKey, KeyLib.walletAddress_eq] at h
      cases h
      refine ⟨rfl, rfl, rfl, ⟨?_, rfl, rfl⟩, kp, hderive, rfl⟩
      exact congrArg (· :: []) (KeyLib.derivePub_of_derive hderive)

theorem Fresh.steady (h : w.Fresh lib scheme seed) : Steady lib scheme seed [] w := by
  obtain ⟨kp, hderive, haddresses⟩ := h.key
  have hnext : w.nextHdIndex.toNat = 1 := by rw [h.next_eq]; rfl
  refine ⟨h.scheme_eq, h.seed_eq, h.matched, ?_, ?_, ?_, ?_⟩
  · rw [haddresses]
    exact List.cons_ne_nil _ _
  · rw [haddresses]
    exact List.nodup_singleton _
  · rw [haddresses, hnext]
    exact Nat.le_refl _
  · intro a ha
    rw [haddresses, List.mem_singleton] at ha
    exact .inr ⟨0, kp, by rw [hnext]; exact Nat.one_pos, hderive, ha.symm⟩

end HdWallet

/-! ## Runs -/

/-- The indices of the keys that a call derives for a wallet. -/
def WalletCall.indices (lib : KeyLib) (w : HdWallet) : WalletCall → List UInt32
  | addAddress _ => [w.nextHdIndex]
  | ensureUnusedPool chain minUnused =>
      (List.range (w.poolMissing lib chain minUnused)).map fun k => w.nextHdIndex + UInt32.ofNat k
  | rescan chain gapLimit fuel =>
      (HdWallet.visited lib w.hdScheme w.masterSeed chain (if gapLimit = 0 then 1 else gapLimit) fuel
        w.scanStart).filter (fun i => w.addresses.length ≤ i.toNat)
  | importPrivateKeyHex _ _ | setPrimaryAddress _ => []

/-- The addresses that a call that returned has imported. -/
def WalletCall.given (lib : KeyLib) : WalletCall → Bool → List Bytes
  | importPrivateKeyHex privateKeyHex _, true => HdWallet.importedAddress lib privateKeyHex
  | _, _ => []

/-- The call derives no key that was imported before, and the wallet stays
below `2 ^ 32` keys. -/
structure WalletCall.Spares (lib : KeyLib) (c : WalletCall) (w : HdWallet) (imported : List Bytes) :
    Prop where
  fresh : ∀ i ∈ c.indices lib w, ∀ kp, lib.deriveWalletKeypair w.hdScheme w.masterSeed i = .ok kp →
    lib.keyAddress kp.pub ∉ imported
  small : w.addresses.length + (c.indices lib w).length + 1 < 2 ^ 32

namespace WalletSession

def runCalls (lib : KeyLib) : List (FileAccess × WalletCall) → WalletSession → WalletSession
  | [], s => s
  | (access, c) :: rest, s => runCalls lib rest (c.run lib access s).1

/-- In the calls from here on, no key is derived after it was imported. -/
def Sparing (lib : KeyLib) : List (FileAccess × WalletCall) → WalletSession → List Bytes → Prop
  | [], _, _ => True
  | (access, c) :: rest, s, imported =>
      (∀ w, s.load lib access = .ok w → c.Spares lib w imported) ∧
        Sparing lib rest (c.run lib access s).1 (imported ++ c.given lib (c.run lib access s).2)

/-- The session of a wallet that was just saved. -/
def opened (w : HdWallet) : WalletSession := ⟨w, some w.payload⟩

/-- What holds between two calls. -/
structure Keeps (lib : KeyLib) (scheme : HdScheme) (seed : Bytes) (imported : List Bytes)
    (s : WalletSession) : Prop where
  memory : ∃ imported' bound, HdWallet.Sourced lib scheme seed imported' bound s.wallet
  file : ∃ w, s.file = some w.payload ∧ HdWallet.Steady lib scheme seed imported w

section

variable {scheme : HdScheme} {seed : Bytes} {imported : List Bytes} {s : WalletSession}

theorem Keeps.load (h : Keeps lib scheme seed imported s) {access : FileAccess} {w : HdWallet}
    (hload : s.load lib access = .ok w) :
    HdWallet.Steady lib scheme seed imported w ∧ s.file = some w.payload := by
  obtain ⟨w', hfile, hsteady⟩ := h.file
  rw [WalletSession.load, hfile] at hload
  simp only at hload
  split at hload
  · rw [hsteady.matched.restore hsteady.ne_nil] at hload
    cases hload
    exact ⟨hsteady, hfile⟩
  · cases hload

/-- A call whose operation leaves a steady wallet to be saved. -/
theorem Keeps.call {α : Type} (h : Keeps lib scheme seed imported s) (access : FileAccess)
    (body : HdWallet.Body α) (given : List Bytes)
    (hbody : ∀ w, s.load lib access = .ok w →
      HdWallet.Leaves lib scheme seed imported given (body w)) :
    Keeps lib scheme seed imported (s.call lib access body).1 ∨
      (s.call lib access body).2.isOk = true ∧
        Keeps lib scheme seed (imported ++ given) (s.call lib access body).1 := by
  rw [WalletSession.call]
  split
  · exact .inl h
  · next loaded hload =>
      have hleaves := hbody loaded hload
      split
      · next hout =>
          rw [hout] at hleaves
          exact .inl ⟨hleaves.sourced, h.file⟩
      · next hout =>
          rw [hout] at hleaves
          exact .inl ⟨hleaves.sourced, h.file⟩
      · next w r hout =>
          rw [hout] at hleaves
          split
          · exact .inr ⟨rfl, hleaves.sourced, w, rfl, hleaves.saved r rfl⟩
          · exact .inl ⟨hleaves.sourced, h.file⟩

theorem Keeps.call_nil {α : Type} (h : Keeps lib scheme seed imported s) (access : FileAccess)
    (body : HdWallet.Body α)
    (hbody : ∀ w, s.load lib access = .ok w →
      HdWallet.Leaves lib scheme seed imported [] (body w)) :
    Keeps lib scheme seed (imported ++ []) (s.call lib access body).1 := by
  rcases h.call access body [] hbody with hkept | ⟨-, hkept⟩
  · rwa [List.append_nil]
  · exact hkept

theorem Keeps.mono (h : Keeps lib scheme seed imported s) (more : List Bytes) :
    Keeps lib scheme seed (imported ++ more) s := by
  obtain ⟨w, hfile, hsteady⟩ := h.file
  exact ⟨h.memory, w, hfile, hsteady.mono more⟩

/-- A call that derives no imported key. -/
theorem Keeps.run (h : Keeps lib scheme seed imported s) (hsep : lib.Separates scheme seed)
    (hseed : seed ≠ []) (hscheme : scheme ≠ .none) (access : FileAccess) (c : WalletCall)
    (hspares : ∀ w, s.load lib access = .ok w → c.Spares lib w imported) :
    Keeps lib scheme seed (imported ++ c.given lib (c.run lib access s).2) (c.run lib access s).1 := by
  have hloaded : ∀ w, s.load lib access = .ok w →
      HdWallet.Steady lib scheme seed imported w ∧
      w.addresses.length + (c.indices lib w).length + 1 < 2 ^ 32 ∧
      ∀ i ∈ c.indices lib w, ∀ kp, lib.deriveWalletKeypair scheme seed i = .ok kp →
        lib.keyAddress kp.pub ∉ imported := fun w hload => by
    have hsteady := (h.load hload).1
    have hfresh := (hspares w hload).fresh
    rw [hsteady.scheme_eq, hsteady.seed_eq] at hfresh
    exact ⟨hsteady, (hspares w hload).small, hfresh⟩
  cases c with
  | addAddress randomSeed =>
      refine h.call_nil access (HdWallet.addAddress lib randomSeed) fun w hload => ?_
      obtain ⟨hsteady, hsmall, hfresh⟩ := hloaded w hload
      exact HdWallet.addAddress_leaves hsteady hsep hseed hscheme randomSeed (by omega)
        (hfresh w.nextHdIndex (List.mem_singleton.mpr rfl))
  | importPrivateKeyHex privateKeyHex label =>
      have hcall := h.call access (HdWallet.importPrivateKeyHex lib privateKeyHex label)
        (HdWallet.importedAddress lib privateKeyHex) fun w hload =>
          HdWallet.importPrivateKeyHex_leaves (hloaded w hload).1 privateKeyHex label
      rcases hcall with hkept | ⟨hok, hkept⟩
      · exact hkept.mono _
      · rw [WalletCall.run, Prod.map_snd, hok]
        exact hkept
  | ensureUnusedPool chain minUnused =>
      refine h.call_nil access (HdWallet.ensureUnusedPool lib chain minUnused) fun w hload => ?_
      obtain ⟨hsteady, hsmall, hfresh⟩ := hloaded w hload
      rw [WalletCall.indices, List.length_map, List.length_range] at hsmall
      exact HdWallet.ensureUnusedPool_leaves hsteady hsep chain minUnused (by omega) fun k hk =>
        hfresh _ (List.mem_map_of_mem (List.mem_range.mpr hk))
  | rescan chain gapLimit fuel =>
      refine h.call_nil access (HdWallet.rescan lib chain gapLimit fuel) fun w hload => ?_
      obtain ⟨hsteady, hsmall, hfresh⟩ := hloaded w hload
      rw [WalletCall.indices, hsteady.scheme_eq, hsteady.seed_eq] at hsmall hfresh
      exact HdWallet.rescan_leaves hsteady hsep chain gapLimit fuel hsmall fun i hi hle =>
        hfresh i (List.mem_filter.mpr ⟨hi, decide_eq_true hle⟩)
  | setPrimaryAddress addressValue =>
      exact h.call_nil access (HdWallet.setPrimaryAddress lib addressValue) fun w hload =>
        HdWallet.setPrimaryAddress_leaves (hloaded w hload).1 addressValue

theorem Keeps.runCalls (hsep : lib.Separates scheme seed) (hseed : seed ≠ []) (hscheme : scheme ≠ .none) :
    ∀ {calls : List (FileAccess × WalletCall)} {s : WalletSession} {imported : List Bytes},
      Keeps lib scheme seed imported s → Sparing lib calls s imported →
        ∃ imported', Keeps lib scheme seed imported' (WalletSession.runCalls lib calls s)
  | [], _, _, h, _ => ⟨_, h⟩
  | (access, c) :: _, _, _, h, hsparing => by
      rw [WalletSession.runCalls]
      exact Keeps.runCalls hsep hseed hscheme (h.run hsep hseed hscheme access c hsparing.1)
        hsparing.2

/-- In every run that derives no key after it was imported, and that stays
below `2 ^ 32` keys, the addresses are different, the lists match and every
coin is counted once. -/
theorem addresses_distinct {w : HdWallet} (hsep : lib.Separates scheme seed) (hseed : seed ≠ [])
    (hfresh : w.Fresh lib scheme seed) (calls : List (FileAccess × WalletCall))
    (hsparing : Sparing lib calls (opened w) []) :
    (WalletSession.runCalls lib calls (opened w)).wallet.Sound lib := by
  have hscheme : scheme ≠ .none := by
    rintro rfl
    obtain ⟨kp, hderive, -⟩ := hfresh.key
    cases hderive
  have hstart : Keeps lib scheme seed [] (opened w) :=
    ⟨⟨_, _, hfresh.steady⟩, w, rfl, hfresh.steady⟩
  obtain ⟨_, hkept⟩ := hstart.runCalls hsep hseed hscheme hsparing
  obtain ⟨_, _, hsourced⟩ := hkept.memory
  exact hsourced.sound

end

/-! ### An imported key that is derived later -/

section

variable {w : HdWallet} {kp : Keypair}

/-- `add_address` on a wallet that was saved. -/
theorem opened_addAddress (hmatched : w.Matched lib) (hne : w.addresses ≠ [])
    (hseed : w.masterSeed ≠ []) (hscheme : w.hdScheme ≠ .none) (randomSeed : Bytes)
    (hderive : lib.deriveWalletKeypair w.hdScheme w.masterSeed w.nextHdIndex = .ok kp) :
    ∃ w', (WalletCall.addAddress randomSeed).run lib ⟨true, true⟩ (opened w) = (opened w', true) ∧
      w'.Matched lib ∧ w'.addresses = w.addresses ++ [lib.keyAddress kp.pub] ∧
      w'.hdScheme = w.hdScheme ∧ w'.masterSeed = w.masterSeed := by
  have hnext : ({ w with nextHdIndex := w.nextHdIndex + 1 } : HdWallet).Matched lib :=
    { pubkeys := hmatched.pubkeys
      addresses := hmatched.addresses
      primary := congrArg (fun v : HdWallet => { v with nextHdIndex := w.nextHdIndex + 1 })
        hmatched.primary }
  obtain ⟨w', happend, hmatched', haddresses, hscheme', hseed', -⟩ :=
    hnext.appendKey (KeyLib.derivePub_of_derive hderive)
  refine ⟨w', ?_, hmatched', haddresses, hscheme', hseed'⟩
  have hload : (opened w).load lib ⟨true, true⟩ = .ok w := hmatched.restore hne
  have hwith : w.withSeed randomSeed = w := by
    rw [HdWallet.withSeed, if_neg hseed, if_neg hscheme]
  rw [WalletCall.run, WalletSession.call, hload]
  simp only [HdWallet.addAddress, hwith, HdWallet.deriveNext, hderive, happend]
  rfl

/-- `import_private_key_hex` of a new key on a wallet that was saved. -/
theorem opened_importPrivateKeyHex (hmatched : w.Matched lib) (hne : w.addresses ≠ [])
    {privateKeyHex raw : Bytes} (hraw : hexDecode privateKeyHex = some raw) (hlength : raw.length = 32)
    (hkey : lib.keypairFromSecret (Hash256.ofBytes raw) = .ok (some kp))
    (hnew : lib.keyAddress kp.pub ∉ w.addresses) :
    ∃ w', (WalletCall.importPrivateKeyHex privateKeyHex []).run lib ⟨true, true⟩ (opened w)
        = (opened w', true) ∧
      w'.Matched lib ∧ w'.addresses = w.addresses ++ [lib.keyAddress kp.pub] ∧
      w'.hdScheme = w.hdScheme ∧ w'.masterSeed = w.masterSeed ∧ w'.nextHdIndex = w.nextHdIndex := by
  obtain ⟨w', happend, hmatched', haddresses, hscheme', hseed', hnext⟩ :=
    hmatched.appendKey (KeyLib.derivePub_of_keypairFromSecret hkey)
  refine ⟨w', ?_, hmatched', haddresses, hscheme', hseed', hnext⟩
  have hload : (opened w).load lib ⟨true, true⟩ = .ok w := hmatched.restore hne
  have hfind : w.addresses.find? (addressesEqual lib.sha256 · (lib.keyAddress kp.pub)) = none := by
    refine List.find?_eq_none.mpr fun a ha hequal => hnew ?_
    obtain ⟨pub, rfl⟩ := hmatched.exists_pub ha
    have hsame := addressesEqual_base64_iff.mp hequal
    rw [KeyLib.keyAddress, canonicalizeAddress_base64, Option.some_inj] at hsame
    have hsame' : lib.keyAddress pub = lib.keyAddress kp.pub := hsame
    rw [← hsame']
    exact ha
  rw [WalletCall.run, WalletSession.call, hload]
  simp only [HdWallet.importPrivateKeyHex, hraw, hlength, ne_eq, not_true_eq_false, if_false, hkey,
    KeyLib.walletAddress_eq, hfind, happend]
  rfl

/-- The key of the next index, imported and then derived. -/
theorem duplicate_of_import_then_derive (hmatched : w.Matched lib) (hne : w.addresses ≠ [])
    (hseed : w.masterSeed ≠ []) (hscheme : w.hdScheme ≠ .none) {privateKeyHex raw : Bytes}
    (hraw : hexDecode privateKeyHex = some raw) (hlength : raw.length = 32)
    (hkey : lib.keypairFromSecret (Hash256.ofBytes raw) = .ok (some kp))
    (hnew : lib.keyAddress kp.pub ∉ w.addresses)
    (hderive : lib.deriveWalletKeypair w.hdScheme w.masterSeed w.nextHdIndex = .ok kp) :
    ¬ (WalletSession.runCalls lib [(⟨true, true⟩, .importPrivateKeyHex privateKeyHex []),
      (⟨true, true⟩, .addAddress [])] (opened w)).wallet.addresses.Nodup := by
  obtain ⟨w₁, hrun₁, hmatched₁, haddresses₁, hscheme₁, hseed₁, hnext₁⟩ :=
    opened_importPrivateKeyHex hmatched hne hraw hlength hkey hnew
  have hne₁ : w₁.addresses ≠ [] := by
    rw [haddresses₁]
    exact List.append_ne_nil_of_right_ne_nil _ (List.cons_ne_nil _ _)
  obtain ⟨w₂, hrun₂, -, haddresses₂, -, -⟩ :=
    opened_addAddress hmatched₁ hne₁ (hseed₁ ▸ hseed) (hscheme₁ ▸ hscheme) []
      (by rw [hscheme₁, hseed₁, hnext₁]; exact hderive)
  rw [WalletSession.runCalls, hrun₁, WalletSession.runCalls, hrun₂, WalletSession.runCalls]
  change ¬ w₂.addresses.Nodup
  rw [haddresses₂, haddresses₁]
  intro hnd
  exact (List.nodup_append.mp hnd).2.2 _ (List.mem_append_right _ (List.mem_singleton.mpr rfl)) _
    (List.mem_singleton.mpr rfl) rfl

end

end WalletSession

/-! ### A sample library -/

/-- A library without secrets: a tweak is one more than the index. -/
def sampleLib : KeyLib where
  sha256 data := Hash256.ofBytes data
  ripemd160 data := ⟨toPaddedBytes 20 (fromBytes data), length_toPaddedBytes 20 _⟩
  hmacSha512 _ data := (BitVec.ofNat 256 (fromBytes (data.drop 33) + 1), 0)
  compressedPub secret := some (2 :: secret.toBytes)
  encodePriv secret := some secret.toBytes
  derivePub priv := some priv

def sampleSeed : Bytes := List.replicate 64 0

/-- The key of a small secret. -/
def sampleKey (n : Nat) : Keypair :=
  ⟨Hash256.toBytes (BitVec.ofNat 256 n), Hash256.toBytes (BitVec.ofNat 256 n)⟩

theorem sampleLib_keypair {n : Nat} (hpos : 0 < n) (hlt : n < 2 ^ 33) :
    sampleLib.keypairFromSecret (BitVec.ofNat 256 n) = .ok (some (sampleKey n)) := by
  have hn : (BitVec.ofNat 256 n).toNat = n := by
    rw [BitVec.toNat_ofNat]
    exact Nat.mod_eq_of_lt (by omega)
  have hrange : ¬ ((BitVec.ofNat 256 n).toNat = 0 ∨ secp256k1Order ≤ (BitVec.ofNat 256 n).toNat) := by
    rw [hn, secp256k1Order]
    omega
  rw [KeyLib.keypairFromSecret, if_neg hrange]
  rfl

theorem sampleLib_keyAddress {n : Nat} (hlt : n < 2 ^ 33) :
    sampleLib.keyAddress (sampleKey n).pub = base64Encode (toPaddedBytes 20 n) := by
  have hn : (BitVec.ofNat 256 n : Hash256).toNat = n := by
    rw [BitVec.toNat_ofNat]
    exact Nat.mod_eq_of_lt (by omega)
  have hround : fromBytes (Hash256.toBytes (BitVec.ofNat 256 n)) = n := by
    rw [Hash256.toBytes, hn]
    exact fromBytes_toPaddedBytes (by norm_num; omega)
  change base64Encode (toPaddedBytes 20 (fromBytes (Hash256.toBytes
    (Hash256.ofBytes (Hash256.toBytes (BitVec.ofNat 256 n)))))) = _
  rw [Hash256.ofBytes_toBytes, hround]

theorem sampleLib_keyAddress_inj {m n : Nat} (hm : m < 2 ^ 33) (hn : n < 2 ^ 33)
    (h : sampleLib.keyAddress (sampleKey m).pub = sampleLib.keyAddress (sampleKey n).pub) : m = n := by
  rw [sampleLib_keyAddress hm, sampleLib_keyAddress hn] at h
  have hbytes := congrArg fromBytes (base64Encode_injective h)
  rwa [fromBytes_toPaddedBytes (by norm_num; omega), fromBytes_toPaddedBytes (by norm_num; omega)]
    at hbytes

theorem sampleLib_child {n : Nat} (hlt : n < 2 ^ 32) (index : UInt32) :
    sampleLib.deriveBip32Child ⟨BitVec.ofNat 256 n, 0⟩ index
      = .ok ⟨BitVec.ofNat 256 (n + index.toNat + 1), 0⟩ := by
  have hindex := index.toNat_lt
  have hdata : ∃ data, sampleLib.bip32ChildData ⟨BitVec.ofNat 256 n, 0⟩ index = .ok data ∧
      data.drop 33 = toPaddedBytes 4 index.toNat := by
    rw [KeyLib.bip32ChildData]
    split
    · exact ⟨_, rfl, List.drop_left' (by rw [List.length_cons, Hash256.length_toBytes])⟩
    · refine ⟨2 :: Hash256.toBytes (BitVec.ofNat 256 n) ++ toPaddedBytes 4 index.toNat, ?_,
        List.drop_left' (by rw [List.length_cons, Hash256.length_toBytes])⟩
      change (if (2 :: Hash256.toBytes (BitVec.ofNat 256 n)).length ≠ 33 then _ else _) = _
      rw [if_neg (by rw [List.length_cons, Hash256.length_toBytes]; decide)]
  obtain ⟨data, hdata, hdrop⟩ := hdata
  have hround : fromBytes (toPaddedBytes 4 index.toNat) = index.toNat :=
    fromBytes_toPaddedBytes (by norm_num; exact hindex)
  have htweak : (BitVec.ofNat 256 (index.toNat + 1)).toNat = index.toNat + 1 := by
    rw [BitVec.toNat_ofNat]
    exact Nat.mod_eq_of_lt (by omega)
  have hparent : (BitVec.ofNat 256 n).toNat = n := by
    rw [BitVec.toNat_ofNat]
    exact Nat.mod_eq_of_lt (by omega)
  have hsum : (index.toNat + 1 + n) % secp256k1Order = n + index.toNat + 1 := by
    rw [Nat.mod_eq_of_lt (by rw [secp256k1Order]; omega)]
    omega
  have hdigest : sampleLib.hmacSha512 (Hash256.toBytes 0) data
      = (BitVec.ofNat 256 (index.toNat + 1), 0) := by
    change (BitVec.ofNat 256 (fromBytes (data.drop 33) + 1), (0 : Hash256)) = _
    rw [hdrop, hround]
  rw [KeyLib.deriveBip32Child, hdata]
  simp only [bind, Except.bind, hdigest, htweak, hparent, hsum]
  rw [if_neg (by rw [secp256k1Order]; omega)]
  rfl

theorem sampleLib_derive {index : UInt32} (h : index < bip32Hardened) :
    sampleLib.deriveWalletKeypair .bip32 sampleSeed index
      = .ok (sampleKey (2 ^ 31 + 4 + index.toNat)) := by
  have hlt : index.toNat < 2 ^ 31 := h
  have hmaster : sampleLib.deriveBip32Master sampleSeed = .ok ⟨BitVec.ofNat 256 1, 0⟩ := rfl
  have haccount : bip32AccountZero.toNat = 2 ^ 31 := rfl
  have hexternal : bip32ExternalChain.toNat = 0 := rfl
  rw [KeyLib.deriveWalletKeypair, KeyLib.deriveBip32Keypair, if_neg (by simpa using h), hmaster]
  simp only [bind, Except.bind]
  rw [sampleLib_child (by omega), haccount]
  simp only
  rw [sampleLib_child (by omega), hexternal]
  simp only
  rw [sampleLib_child (by omega)]
  simp only
  rw [sampleLib_keypair (by omega) (by omega)]
  have hsum : 1 + 2 ^ 31 + 1 + 0 + 1 + index.toNat + 1 = 2 ^ 31 + 4 + index.toNat := by omega
  rw [hsum]
  rfl

theorem sampleLib_derive_eq {index : UInt32} {kp : Keypair}
    (h : sampleLib.deriveWalletKeypair .bip32 sampleSeed index = .ok kp) :
    index.toNat < 2 ^ 31 ∧ kp = sampleKey (2 ^ 31 + 4 + index.toNat) := by
  by_cases hlt : index < bip32Hardened
  · rw [sampleLib_derive hlt] at h
    exact ⟨hlt, (Except.ok.inj h).symm⟩
  · rw [KeyLib.deriveWalletKeypair, KeyLib.deriveBip32Keypair, if_pos (by simpa using hlt)] at h
    cases h

theorem sampleLib_separates : sampleLib.Separates .bip32 sampleSeed := by
  intro i j kp kp' hi hj heq
  obtain ⟨hi, hkp⟩ := sampleLib_derive_eq hi
  obtain ⟨hj, hkp'⟩ := sampleLib_derive_eq hj
  rw [hkp, hkp'] at heq
  have hsame := sampleLib_keyAddress_inj (by omega) (by omega) heq
  exact UInt32.toNat_inj.mp (by omega)

/-- The wallet that `create_new` makes of the sample seed. -/
theorem exists_sampleWallet : ∃ w, HdWallet.createFromSeed sampleLib .base64 [] sampleSeed = .ok w ∧
    w.Fresh sampleLib .bip32 sampleSeed ∧
    w.addresses = [sampleLib.keyAddress (sampleKey (2 ^ 31 + 4)).pub] := by
  have hderive : sampleLib.deriveWalletKeypair .bip32 sampleSeed 0 = .ok (sampleKey (2 ^ 31 + 4)) :=
    sampleLib_derive (by decide)
  cases hcreate : HdWallet.createFromSeed sampleLib .base64 [] sampleSeed with
  | error e =>
      rw [HdWallet.createFromSeed, HdWallet.deriveNext] at hcreate
      simp only [hderive, HdWallet.appendKey, KeyLib.walletAddress_eq] at hcreate
      cases hcreate
  | ok w =>
      have hfresh := HdWallet.createFromSeed_fresh hcreate
      obtain ⟨kp, hkey, haddresses⟩ := hfresh.key
      rw [hderive] at hkey
      rw [← Except.ok.inj hkey] at haddresses
      exact ⟨w, rfl, hfresh, haddresses⟩

theorem sampleSeed_ne_nil : sampleSeed ≠ [] := by decide

/-- A private key as text: the secret of index 1 of the sample seed. -/
def aheadHex : Bytes := chars "0000000000000000000000000000000000000000000000000000000080000005"

/-- The secret of no index of the sample seed. -/
def foreignHex : Bytes := chars "0000000000000000000000000000000000000000000000000000000000000001"

theorem hexDecode_aheadHex : hexDecode aheadHex = some (toPaddedBytes 32 (2 ^ 31 + 5)) := by
  decide

theorem hexDecode_foreignHex : hexDecode foreignHex = some (toPaddedBytes 32 1) := by
  decide

theorem sampleLib_importedKey {n : Nat} (hpos : 0 < n) (hlt : n < 2 ^ 33) :
    sampleLib.keypairFromSecret (Hash256.ofBytes (toPaddedBytes 32 n)) = .ok (some (sampleKey n)) := by
  rw [Hash256.ofBytes, fromBytes_toPaddedBytes (by norm_num; omega)]
  exact sampleLib_keypair hpos hlt

namespace WalletSession

/-- The key of index 1 is imported and then derived. -/
theorem not_addresses_distinct : ¬ ∀ (lib : KeyLib) (scheme : HdScheme) (seed : Bytes) (w : HdWallet)
    (calls : List (FileAccess × WalletCall)), lib.Separates scheme seed → seed ≠ [] →
      w.Fresh lib scheme seed →
        (WalletSession.runCalls lib calls (opened w)).wallet.Sound lib := by
  intro hall
  obtain ⟨w, -, hfresh, haddresses⟩ := exists_sampleWallet
  have hne : w.addresses ≠ [] := by
    rw [haddresses]
    exact List.cons_ne_nil _ _
  have hnew : sampleLib.keyAddress (sampleKey (2 ^ 31 + 5)).pub ∉ w.addresses := fun hmem => by
    rw [haddresses, List.mem_singleton] at hmem
    have hsame := sampleLib_keyAddress_inj (by omega) (by omega) hmem
    omega
  have hderive : sampleLib.deriveWalletKeypair w.hdScheme w.masterSeed w.nextHdIndex
      = .ok (sampleKey (2 ^ 31 + 5)) := by
    rw [hfresh.scheme_eq, hfresh.seed_eq, hfresh.next_eq]
    exact sampleLib_derive (by decide)
  exact duplicate_of_import_then_derive hfresh.matched hne (hfresh.seed_eq ▸ sampleSeed_ne_nil)
    (by rw [hfresh.scheme_eq]; nofun) hexDecode_aheadHex (length_toPaddedBytes 32 _)
    (sampleLib_importedKey (by omega) (by omega)) hnew hderive
    (hall sampleLib .bip32 sampleSeed w _ sampleLib_separates sampleSeed_ne_nil hfresh).distinct

/-- A foreign key is imported between two derived ones. -/
theorem addresses_distinct_sample : ∃ w : HdWallet,
    w.Fresh sampleLib .bip32 sampleSeed ∧
    (WalletSession.runCalls sampleLib [(⟨true, true⟩, .importPrivateKeyHex foreignHex []),
      (⟨true, true⟩, .addAddress [])] (opened w)).wallet.Sound sampleLib := by
  obtain ⟨w, -, hfresh, haddresses⟩ := exists_sampleWallet
  have hne : w.addresses ≠ [] := by
    rw [haddresses]
    exact List.cons_ne_nil _ _
  have hnew : sampleLib.keyAddress (sampleKey 1).pub ∉ w.addresses := fun hmem => by
    rw [haddresses, List.mem_singleton] at hmem
    have hsame := sampleLib_keyAddress_inj (by omega) (by omega) hmem
    omega
  obtain ⟨w₁, hrun, hmatched₁, haddresses₁, hscheme₁, hseed₁, hnext₁⟩ :=
    opened_importPrivateKeyHex hfresh.matched hne hexDecode_foreignHex (length_toPaddedBytes 32 _)
      (sampleLib_importedKey (by omega) (by omega)) hnew
  have hne₁ : w₁.addresses ≠ [] := by
    rw [haddresses₁]
    exact List.append_ne_nil_of_right_ne_nil _ (List.cons_ne_nil _ _)
  refine ⟨w, hfresh, addresses_distinct sampleLib_separates sampleSeed_ne_nil hfresh _
    ⟨fun v hload => ?_, fun v hload => ?_, trivial⟩⟩
  · rw [show (opened w).load sampleLib ⟨true, true⟩ = .ok w from hfresh.matched.restore hne] at hload
    cases hload
    refine ⟨nofun, ?_⟩
    rw [haddresses, WalletCall.indices, List.length_singleton, List.length_nil]
    omega
  · rw [hrun] at hload ⊢
    rw [show (opened w₁).load sampleLib ⟨true, true⟩ = .ok w₁ from hmatched₁.restore hne₁] at hload
    cases hload
    refine ⟨fun i hi kp hderive himported => ?_, ?_⟩
    · have hi' := List.mem_singleton.mp hi
      rw [hscheme₁, hseed₁, hfresh.scheme_eq, hfresh.seed_eq] at hderive
      obtain ⟨hlt, hkp⟩ := sampleLib_derive_eq hderive
      have hgiven : HdWallet.importedAddress sampleLib foreignHex
          = [sampleLib.keyAddress (sampleKey 1).pub] := by
        rw [HdWallet.importedAddress, hexDecode_foreignHex]
        simp only
        rw [sampleLib_importedKey (by omega) (by omega)]
      rw [WalletCall.given, hgiven, List.nil_append, List.mem_singleton, hkp] at himported
      have hsame := sampleLib_keyAddress_inj (by omega) (by omega) himported
      omega
    · rw [haddresses₁, haddresses, WalletCall.indices, List.length_append, List.length_singleton,
        List.length_singleton, List.length_singleton]
      omega

end WalletSession

end Cryptex
