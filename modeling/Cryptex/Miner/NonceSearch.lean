import Cryptex.Miner.JobBytes

/-!
# The nonce search

The loops of `powminer_main.cpp` that try one nonce after the other:
`run_nonce_search_scalar` with the library's hasher, `run_nonce_search_x86_64`
with the miner's own hash, one or four nonces at a time, and
`run_worker_job_x86_64`, which searches in chunks. A search without a limit
need not end, so the loops are given fuel and return `none` when it runs out.

The searches differ in how they come by a hash and in how many nonces they
take at once. What they report is the same function of the hashes of the
candidates (`outcome`): each loop keeps that no candidate so far meets the
target and that its result is the one of so many attempts (`missed`).
-/

namespace Cryptex.Miner

structure NonceSearchResult where
  found : Bool := false
  nonce : UInt32 := 0
  nextNonce : UInt32 := 0
  iterations : UInt64 := 0
  hash : PowHashBytes := Vector.replicate 64 0
deriving DecidableEq

/-- One attempt is counted, and its hash kept. -/
def NonceSearchResult.attempt (result : NonceSearchResult) (nonce nonceStep : UInt32)
    (hash : PowHashBytes) : NonceSearchResult :=
  { result with iterations := result.iterations + 1, nextNonce := nonce + nonceStep, hash := hash }

/-! ## With the library's hasher -/

/-- `SHA3_512_Hasher`: the bytes it has been given. -/
structure Sha3_512Hasher where
  data : Bytes := []

namespace Sha3_512Hasher

def update (h : Sha3_512Hasher) (data : Bytes) : Sha3_512Hasher := ⟨h.data ++ data⟩

def finalize (c : Crypto) (h : Sha3_512Hasher) : PowHashBytes :=
  hashBytes (c.sha3_512 h.data).toNat

end Sha3_512Hasher

section Scalar

variable (c : Crypto) (target : PowHashBytes) (prefixHasher : Sha3_512Hasher)
  (nonceStep : UInt32) (maxIterations : UInt64)

def scalarLoop : Nat → Vector UInt8 80 → NonceSearchResult → UInt32 → Option NonceSearchResult
  | 0, _, _, _ => none
  | fuel + 1, headerBytes, result, nonce =>
      if maxIterations = 0 ∨ result.iterations < maxIterations then
        let headerBytes := setHeaderNonceLe headerBytes nonce
        let nonceHasher := prefixHasher.update (headerBytes.toList.drop 76)
        let result := result.attempt nonce nonceStep (nonceHasher.finalize c)
        if hashMeetsTargetScalar result.hash target then
          some { result with found := true, nonce := nonce }
        else scalarLoop fuel headerBytes result (nonce + nonceStep)
      else some result

def runNonceSearchScalar (fuel : Nat) (headerTemplate : Vector UInt8 80)
    (startNonce : UInt32) : Option NonceSearchResult :=
  scalarLoop c target prefixHasher nonceStep maxIterations fuel headerTemplate {} startNonce

end Scalar

/-! ## With the miner's hash -/

/-- The hashes of one batch, up to the first that meets the target. -/
def scanBatch (target : PowHashBytes) (nonceStep : UInt32) :
    List (UInt32 × PowHashBytes) → NonceSearchResult → NonceSearchResult
  | [], result => result
  | (nonce, hash) :: rest, result =>
      let result := result.attempt nonce nonceStep hash
      if hashMeetsTargetX86_64 hash target true then
        { result with found := true, nonce := nonce }
      else scanBatch target nonceStep rest result

section X86

variable (prefixState : Vector UInt64 25) (bits : UInt32) (target : PowHashBytes)
  (nonceStep : UInt32)

def x86Loop (maxIterations : UInt64) (useAvx2 : Bool) :
    Nat → NonceSearchResult → UInt32 → Option NonceSearchResult
  | 0, _, _ => none
  | fuel + 1, result, nonce =>
      if maxIterations = 0 ∨ result.iterations < maxIterations then
        if useAvx2 then
          let remaining : UInt64 :=
            if maxIterations = 0 then 4 else min 4 (maxIterations - result.iterations)
          let nonces : Vector UInt32 4 :=
            #v[nonce, nonce + nonceStep, nonce + nonceStep * 2, nonce + nonceStep * 3]
          let hashes := finalizeSuffixBatch4 prefixState bits nonces
          let result := scanBatch target nonceStep
            ((nonces.toList.zip hashes.toList).take remaining.toNat) result
          if result.found then some result
          else x86Loop maxIterations useAvx2 fuel result
            (nonces.toList.getD (remaining - 1).toNat 0 + nonceStep)
        else
          let result := result.attempt nonce nonceStep (finalizeSuffixScalar prefixState bits nonce)
          if hashMeetsTargetX86_64 result.hash target false then
            some { result with found := true, nonce := nonce }
          else x86Loop maxIterations useAvx2 fuel result (nonce + nonceStep)
      else some result

def runNonceSearchX86_64 (fuel : Nat) (startNonce : UInt32) (maxIterations : UInt64)
    (useAvx2 : Bool) : Option NonceSearchResult :=
  x86Loop prefixState bits target nonceStep maxIterations useAvx2 fuel {} startNonce

end X86

/-- The nonces of a batch, up to the first that meets the target. -/
def scanTried (target : PowHashBytes) : List (UInt32 × PowHashBytes) → List UInt32
  | [] => []
  | (nonce, hash) :: rest =>
      nonce :: if hashMeetsTargetX86_64 hash target true then [] else scanTried target rest

/-- The nonces that `x86Loop` tries. -/
def x86Tried (prefixState : Vector UInt64 25) (bits : UInt32) (target : PowHashBytes)
    (nonceStep : UInt32) (maxIterations : UInt64) (useAvx2 : Bool) :
    Nat → NonceSearchResult → UInt32 → List UInt32
  | 0, _, _ => []
  | fuel + 1, result, nonce =>
      if maxIterations = 0 ∨ result.iterations < maxIterations then
        if useAvx2 then
          let remaining : UInt64 :=
            if maxIterations = 0 then 4 else min 4 (maxIterations - result.iterations)
          let nonces : Vector UInt32 4 :=
            #v[nonce, nonce + nonceStep, nonce + nonceStep * 2, nonce + nonceStep * 3]
          let hashes := finalizeSuffixBatch4 prefixState bits nonces
          let batch := (nonces.toList.zip hashes.toList).take remaining.toNat
          let result := scanBatch target nonceStep batch result
          scanTried target batch ++
            if result.found then []
            else x86Tried prefixState bits target nonceStep maxIterations useAvx2 fuel result
              (nonces.toList.getD (remaining - 1).toNat 0 + nonceStep)
        else
          let result := result.attempt nonce nonceStep (finalizeSuffixScalar prefixState bits nonce)
          nonce ::
            if hashMeetsTargetX86_64 result.hash target false then []
            else x86Tried prefixState bits target nonceStep maxIterations useAvx2 fuel result
              (nonce + nonceStep)
      else []

/-! ## Worker jobs -/

structure PowWorkerJob where
  header : Vector UInt8 80
  target : PowHashBytes
  startNonce : UInt32 := 0
  nonceStep : UInt32 := 1
  maxIterations : UInt64 := 0

structure PowWorkerResult where
  found : Bool := false
  nonce : UInt32 := 0
  iterations : UInt64 := 0
  hash : PowHashBytes := Vector.replicate 64 0
deriving DecidableEq

def kChunkIterations : UInt64 := 4096

/-- The chunks of a job. Each is searched with the fuel `chunkFuel`. -/
def chunkLoop (job : PowWorkerJob) (prefixState : Vector UInt64 25) (bits : UInt32)
    (useAvx2 : Bool) (chunkFuel : Nat) : Nat → PowWorkerResult → UInt32 → Option PowWorkerResult
  | 0, _, _ => none
  | fuel + 1, result, nonce =>
      if job.maxIterations = 0 ∨ result.iterations < job.maxIterations then
        let remaining : UInt64 :=
          if job.maxIterations = 0 then kChunkIterations
          else min kChunkIterations (job.maxIterations - result.iterations)
        match runNonceSearchX86_64 prefixState bits job.target job.nonceStep chunkFuel nonce
            remaining useAvx2 with
        | none => none
        | some chunk =>
            if chunk.iterations = 0 then some result
            else
              let result := { result with
                iterations := result.iterations + chunk.iterations, hash := chunk.hash }
              if chunk.found then some { result with found := true, nonce := chunk.nonce }
              else chunkLoop job prefixState bits useAvx2 chunkFuel fuel result chunk.nextNonce
      else some result

/-- `run_worker_job_x86_64`; whether the processor has AVX2 is given. -/
def runWorkerJobX86_64 (fuel : Nat) (useAvx2 : Bool) (job : PowWorkerJob) :
    Option PowWorkerResult :=
  chunkLoop job (preparePrefixState job.header) (readU32Le (job.header.toList.drop 72)) useAvx2
    fuel fuel {} job.startNonce

/-! ## What a search reports -/

section Outcome

variable (hashOf : UInt32 → PowHashBytes) (target : PowHashBytes) (start step : UInt32)

/-- The nonces in the order in which they are tried. -/
def candidate (k : Nat) : UInt32 := start + UInt32.ofNat k * step

/-- The candidate's hash is low enough. -/
def meets (k : Nat) : Bool := hashMeetsTargetScalar (hashOf (candidate start step k)) target

/-- The result when the first `k` candidates have been tried in vain. -/
def missed : Nat → NonceSearchResult
  | 0 => {}
  | k + 1 =>
      { nextNonce := candidate start step (k + 1), iterations := UInt64.ofNat (k + 1),
        hash := hashOf (candidate start step k) }

/-- The result when candidate `k` is the first that meets the target. -/
def hit (k : Nat) : NonceSearchResult :=
  { missed hashOf start step (k + 1) with found := true, nonce := candidate start step k }

/-- The result of a search among the first `n` candidates. -/
def outcome (n : Nat) : NonceSearchResult :=
  match (List.range n).find? (meets hashOf target start step) with
  | none => missed hashOf start step n
  | some k => hit hashOf start step k

variable {hashOf target start step}

theorem candidate_zero : candidate start step 0 = start := by
  rw [candidate, show UInt32.ofNat 0 = 0 from rfl, UInt32.zero_mul, UInt32.add_zero]

theorem candidate_add (k i : Nat) :
    candidate start step (k + i) = candidate (candidate start step k) step i := by
  rw [candidate, candidate, candidate, UInt32.ofNat_add, UInt32.add_mul, UInt32.add_assoc]

theorem candidate_succ (k : Nat) :
    candidate start step (k + 1) = candidate start step k + step := by
  rw [candidate_add, candidate, show UInt32.ofNat 1 = 1 from rfl, UInt32.one_mul]

theorem meets_add (k i : Nat) :
    meets hashOf target start step (k + i)
      = meets hashOf target (candidate start step k) step i := by
  rw [meets, meets, candidate_add]

theorem found_missed (k : Nat) : (missed hashOf start step k).found = false := by
  cases k <;> rfl

theorem nonce_missed (k : Nat) : (missed hashOf start step k).nonce = 0 := by
  cases k <;> rfl

theorem nextNonce_missed {k : Nat} (hk : 0 < k) :
    (missed hashOf start step k).nextNonce = candidate start step k := by
  cases k with
  | zero => exact absurd hk (Nat.lt_irrefl 0)
  | succ k => rfl

theorem iterations_missed (k : Nat) :
    (missed hashOf start step k).iterations = UInt64.ofNat k := by
  cases k <;> rfl

/-- One more attempt after `k` in vain. -/
theorem attempt_missed (k : Nat) :
    (missed hashOf start step k).attempt (candidate start step k) step
        (hashOf (candidate start step k)) = missed hashOf start step (k + 1) := by
  cases k with
  | zero => simp only [missed, NonceSearchResult.attempt, candidate_succ]; rfl
  | succ k =>
      simp only [missed, NonceSearchResult.attempt, candidate_succ, UInt64.ofNat_add]
      rfl

theorem missed_succ {k : Nat} (hmissed : ∀ j < k, meets hashOf target start step j = false)
    (hk : ¬ meets hashOf target start step k = true) :
    ∀ j < k + 1, meets hashOf target start step j = false := by
  intro j hj
  rcases Nat.lt_succ_iff_lt_or_eq.mp hj with hj | rfl
  · exact hmissed j hj
  · exact Bool.eq_false_iff.mpr hk

theorem outcome_of_missed {n : Nat} (hmissed : ∀ j < n, meets hashOf target start step j = false) :
    outcome hashOf target start step n = missed hashOf start step n := by
  have hnone : (List.range n).find? (meets hashOf target start step) = none := by
    rw [List.find?_range_eq_none]
    intro j hj
    rw [hmissed j hj]
    rfl
  rw [outcome, hnone]

theorem outcome_of_hit {n k : Nat} (hk : k < n) (hmeets : meets hashOf target start step k = true)
    (hmissed : ∀ j < k, meets hashOf target start step j = false) :
    outcome hashOf target start step n = hit hashOf start step k := by
  have hsome : (List.range n).find? (meets hashOf target start step) = some k := by
    rw [List.find?_range_eq_some]
    exact ⟨hmeets, List.mem_range.mpr hk, fun j hj => by rw [hmissed j hj]; rfl⟩
  rw [outcome, hsome]

variable (hashOf target start step) in
/-- A search either hits a first candidate or misses with all. -/
theorem outcome_cases (n : Nat) :
    (∃ k < n, meets hashOf target start step k = true ∧
      (∀ j < k, meets hashOf target start step j = false) ∧
      outcome hashOf target start step n = hit hashOf start step k) ∨
    ((∀ j < n, meets hashOf target start step j = false) ∧
      outcome hashOf target start step n = missed hashOf start step n) := by
  cases hfind : (List.range n).find? (meets hashOf target start step) with
  | none =>
      right
      have hmissed : ∀ j < n, meets hashOf target start step j = false := fun j hj => by
        simpa using List.find?_range_eq_none.mp hfind j hj
      exact ⟨hmissed, outcome_of_missed hmissed⟩
  | some k =>
      left
      obtain ⟨hmeets, hk, hbefore⟩ := List.find?_range_eq_some.mp hfind
      have hmissed : ∀ j < k, meets hashOf target start step j = false := fun j hj => by
        simpa using hbefore j hj
      exact ⟨k, List.mem_range.mp hk, hmeets, hmissed,
        outcome_of_hit (List.mem_range.mp hk) hmeets hmissed⟩

/-- A search counts at least one attempt, and at most one for each candidate. -/
theorem iterations_outcome {n : Nat} (hpos : 0 < n) (hn : n < 2 ^ 64) :
    (outcome hashOf target start step n).iterations ≠ 0 := by
  have hcount {m : Nat} (hm : 0 < m) (hle : m ≤ n) : UInt64.ofNat m ≠ 0 := by
    intro hzero
    have h := congrArg UInt64.toNat hzero
    rw [UInt64.toNat_ofNat', Nat.mod_eq_of_lt (by omega)] at h
    exact hm.ne' h
  rcases outcome_cases hashOf target start step n with ⟨k, hk, _, _, houtcome⟩ | ⟨_, houtcome⟩
  · rw [houtcome]
    exact hcount (Nat.succ_pos k) hk
  · rw [houtcome, iterations_missed]
    exact hcount hpos le_rfl

/-- A search that goes on after `m` attempts in vain is a search of its own. -/
theorem outcome_add {m n : Nat} (hn : 0 < n)
    (hmissed : ∀ j < m, meets hashOf target start step j = false) :
    outcome hashOf target start step (m + n)
      = { outcome hashOf target (candidate start step m) step n with
          iterations := UInt64.ofNat m
            + (outcome hashOf target (candidate start step m) step n).iterations } := by
  have hbefore {k : Nat}
      (hrest : ∀ j < k, meets hashOf target (candidate start step m) step j = false) :
      ∀ j < m + k, meets hashOf target start step j = false := by
    intro j hj
    by_cases hlt : j < m
    · exact hmissed j hlt
    · rw [← Nat.add_sub_cancel' (Nat.not_lt.mp hlt), meets_add]
      exact hrest _ (by omega)
  rcases outcome_cases hashOf target (candidate start step m) step n
    with ⟨k, hk, hmeets, hrest, houtcome⟩ | ⟨hrest, houtcome⟩
  · rw [houtcome, outcome_of_hit (Nat.add_lt_add_left hk m) (by rw [meets_add, hmeets])
      (hbefore hrest), hit, hit, missed, missed, Nat.add_assoc, candidate_add, candidate_add,
      UInt64.ofNat_add]
  · obtain ⟨n, rfl⟩ := Nat.exists_eq_succ_of_ne_zero hn.ne'
    rw [houtcome, outcome_of_missed (hbefore hrest), Nat.add_succ, missed, missed,
      Nat.add_assoc, candidate_add m (n + 1), candidate_add m n,
      UInt64.ofNat_add m]

end Outcome

/-! ## Every loop reports the outcome -/

/-- The test of the loops, when a search has a limit. -/
theorem goesOn_iff {maxIterations : UInt64} (hmax : maxIterations ≠ 0) {k : Nat}
    (hk : k ≤ maxIterations.toNat) :
    (maxIterations = 0 ∨ UInt64.ofNat k < maxIterations) ↔ k < maxIterations.toNat := by
  have hlt := maxIterations.toNat_lt
  rw [or_iff_right hmax, UInt64.lt_iff_toNat_lt, UInt64.toNat_ofNat',
    Nat.mod_eq_of_lt (by omega)]

section Loops

variable {hashOf : UInt32 → PowHashBytes} {target : PowHashBytes} {start step : UInt32}

theorem scalarLoop_eq {c : Crypto} {prefixHasher : Sha3_512Hasher} {maxIterations : UInt64}
    (hmax : maxIterations ≠ 0)
    (hhash : ∀ nonce, (prefixHasher.update (u32LeBytes nonce)).finalize c = hashOf nonce) :
    ∀ {fuel k : Nat} (headerBytes : Vector UInt8 80), k ≤ maxIterations.toNat →
      maxIterations.toNat - k < fuel →
      (∀ j < k, meets hashOf target start step j = false) →
      scalarLoop c target prefixHasher step maxIterations fuel headerBytes
        (missed hashOf start step k) (candidate start step k)
        = some (outcome hashOf target start step maxIterations.toNat)
  | 0, k, _, _, hfuel, _ => absurd hfuel (Nat.not_lt_zero _)
  | fuel + 1, k, headerBytes, hk, hfuel, hmissed => by
      have htail (nonce : UInt32) :
          (setHeaderNonceLe headerBytes nonce).toList.drop 76 = u32LeBytes nonce := by
        rw [toList_setHeaderNonceLe, List.drop_append_of_le_length, List.drop_take_self,
          List.nil_append]
        rw [List.length_take, Vector.length_toList]
        rfl
      rw [scalarLoop, iterations_missed]
      simp only [goesOn_iff hmax hk, htail, hhash, attempt_missed]
      split
      next hlt =>
        split
        next hmeets =>
          rw [outcome_of_hit hlt hmeets hmissed]
          rfl
        next hmeets =>
          rw [← candidate_succ]
          exact scalarLoop_eq hmax hhash _ hlt (by omega) (missed_succ hmissed hmeets)
      next hge =>
        obtain rfl : k = maxIterations.toNat := by omega
        rw [outcome_of_missed hmissed]

/-- A batch of the next candidates goes on where `k` attempts were in vain. -/
theorem scanBatch_eq : ∀ (m k : Nat), (∀ j < k, meets hashOf target start step j = false) →
    scanBatch target step ((List.range m).map fun i =>
        (candidate start step (k + i), hashOf (candidate start step (k + i))))
      (missed hashOf start step k) = outcome hashOf target start step (k + m)
  | 0, k, hmissed => by
      rw [Nat.add_zero, outcome_of_missed hmissed]
      rfl
  | m + 1, k, hmissed => by
      rw [List.range_succ_eq_map, List.map_cons, scanBatch, Nat.add_zero, attempt_missed,
        List.map_map]
      simp only [hashMeetsTargetX86_64_eq]
      split
      next hmeets =>
        rw [outcome_of_hit (show k < k + (m + 1) by omega) hmeets hmissed]
        rfl
      next hmeets =>
        have hnext := scanBatch_eq m (k + 1) (missed_succ hmissed hmeets)
        rw [show k + (m + 1) = k + 1 + m by omega, ← hnext]
        congr 1
        apply List.map_congr_left
        intro i _
        rw [Function.comp_apply, show k + i.succ = k + 1 + i by omega]

/-- How many of the next `m` candidates are left. -/
theorem toNat_remaining {maxIterations : UInt64} (hmax : maxIterations ≠ 0) {k : Nat}
    (hk : k ≤ maxIterations.toNat) (m : UInt64) :
    (if maxIterations = 0 then m else min m (maxIterations - UInt64.ofNat k)).toNat
      = min m.toNat (maxIterations.toNat - k) := by
  have hlt := maxIterations.toNat_lt
  have hcount : (UInt64.ofNat k).toNat = k := by
    rw [UInt64.toNat_ofNat', Nat.mod_eq_of_lt (by omega)]
  rw [if_neg hmax, uint64_toNat_min, UInt64.toNat_sub_of_le _ _ (by
    rw [UInt64.le_iff_toNat_le, hcount]
    exact hk), hcount]

variable (start step) in
/-- The nonces of a batch are the next four candidates. -/
theorem batch_nonces (k : Nat) {i : Nat} (hi : i < 4) :
    (#v[candidate start step k, candidate start step k + step, candidate start step k + step * 2,
      candidate start step k + step * 3] : Vector UInt32 4)[i] = candidate start step (k + i) := by
  rw [candidate_add]
  have hplace : i = 0 ∨ i = 1 ∨ i = 2 ∨ i = 3 := by omega
  rcases hplace with rfl | rfl | rfl | rfl
  · exact candidate_zero.symm
  · rw [candidate_succ, candidate_zero]
    rfl
  · exact congrArg (candidate start step k + ·) (UInt32.mul_comm step 2)
  · exact congrArg (candidate start step k + ·) (UInt32.mul_comm step 3)

theorem batch_candidates {prefixState : Vector UInt64 25} {bits : UInt32}
    (hbatch : ∀ (nonces : Vector UInt32 4) {i : Nat} (hi : i < 4),
      (finalizeSuffixBatch4 prefixState bits nonces)[i] = hashOf nonces[i])
    {nonces : Vector UInt32 4} {k : Nat}
    (hnonces : ∀ {i : Nat} (hi : i < 4), nonces[i] = candidate start step (k + i)) {m : Nat}
    (hm : m ≤ 4) :
    (nonces.toList.zip (finalizeSuffixBatch4 prefixState bits nonces).toList).take m
      = (List.range m).map fun i =>
          (candidate start step (k + i), hashOf (candidate start step (k + i))) := by
  apply List.ext_getElem
  · rw [List.length_take, List.length_zip, Vector.length_toList, Vector.length_toList,
      List.length_map, List.length_range]
    omega
  · intro i h₁ h₂
    have hi : i < 4 := by
      rw [List.length_map, List.length_range] at h₂
      omega
    have hhash := hbatch nonces hi
    simp only [hnonces hi] at hhash
    simp only [List.getElem_take, List.getElem_zip, Vector.getElem_toList, List.getElem_map,
      List.getElem_range, hnonces hi, hhash]

variable (target start step) in
theorem x86Loop_eq {prefixState : Vector UInt64 25} {bits : UInt32} {maxIterations : UInt64}
    (hmax : maxIterations ≠ 0)
    (hscalar : ∀ nonce, finalizeSuffixScalar prefixState bits nonce = hashOf nonce)
    (hbatch : ∀ (nonces : Vector UInt32 4) {i : Nat} (hi : i < 4),
      (finalizeSuffixBatch4 prefixState bits nonces)[i] = hashOf nonces[i])
    (useAvx2 : Bool) : ∀ {fuel k : Nat}, k ≤ maxIterations.toNat →
      maxIterations.toNat - k < fuel →
      (∀ j < k, meets hashOf target start step j = false) →
      x86Loop prefixState bits target step maxIterations useAvx2 fuel
        (missed hashOf start step k) (candidate start step k)
        = some (outcome hashOf target start step maxIterations.toNat)
  | 0, k, _, hfuel, _ => absurd hfuel (Nat.not_lt_zero _)
  | fuel + 1, k, hk, hfuel, hmissed => by
      rw [x86Loop, iterations_missed]
      by_cases hlt : k < maxIterations.toNat
      · rw [if_pos ((goesOn_iff hmax hk).mpr hlt)]
        cases useAvx2 with
        | false =>
            simp only [hscalar, attempt_missed, hashMeetsTargetX86_64_eq, Bool.false_eq_true,
              if_false]
            split
            next hmeets =>
              rw [outcome_of_hit hlt hmeets hmissed]
              rfl
            next hmeets =>
              rw [← candidate_succ]
              exact x86Loop_eq hmax hscalar hbatch false hlt (by omega)
                (missed_succ hmissed hmeets)
        | true =>
            rw [if_pos rfl]
            have hremaining := toNat_remaining hmax hk 4
            generalize (if maxIterations = 0 then (4 : UInt64)
              else min 4 (maxIterations - UInt64.ofNat k)) = remaining at hremaining ⊢
            have hnonces := fun {i : Nat} (hi : i < 4) =>
              batch_nonces start step k hi
            generalize (#v[candidate start step k, candidate start step k + step,
              candidate start step k + step * 2, candidate start step k + step * 3]
                : Vector UInt32 4) = nonces at hnonces ⊢
            have hm : 0 < remaining.toNat ∧ remaining.toNat ≤ 4
                ∧ k + remaining.toNat ≤ maxIterations.toNat := by
              rw [hremaining, show (4 : UInt64).toNat = 4 from rfl]
              omega
            obtain ⟨hpos, hfour, hwithin⟩ := hm
            have hlast : (remaining - 1).toNat = remaining.toNat - 1 :=
              UInt64.toNat_sub_of_le _ _ (UInt64.le_iff_toNat_le.mpr hpos)
            simp only [batch_candidates hbatch hnonces hfour, scanBatch_eq _ _ hmissed]
            -- the batch ends with a hit, or all its candidates have been tried in vain
            rcases outcome_cases hashOf target start step (k + remaining.toNat)
              with ⟨j, hj, hmeets, hbefore, houtcome⟩ | ⟨hmissed, houtcome⟩
            · rw [houtcome, outcome_of_hit (by omega) hmeets hbefore]
              rfl
            · have hnext : nonces.toList.getD (remaining - 1).toNat 0 + step
                  = candidate start step (k + remaining.toNat) := by
                rw [hlast, List.getD_eq_getElem?_getD,
                  List.getElem?_eq_getElem (by rw [Vector.length_toList]; omega),
                  Option.getD_some, Vector.getElem_toList, hnonces (by omega), ← candidate_succ]
                congr 1
                omega
              rw [houtcome, found_missed, if_neg Bool.false_ne_true, hnext]
              exact x86Loop_eq hmax hscalar hbatch true hwithin (by omega) hmissed
      · obtain rfl : k = maxIterations.toNat := by omega
        rw [if_neg (fun h => hlt ((goesOn_iff hmax hk).mp h)), outcome_of_missed hmissed]

/-- What a worker keeps of a search. -/
def PowWorkerResult.ofSearch (result : NonceSearchResult) : PowWorkerResult :=
  ⟨result.found, result.nonce, result.iterations, result.hash⟩

theorem chunkLoop_eq (job : PowWorkerJob) {prefixState : Vector UInt64 25} {bits : UInt32}
    (hmax : job.maxIterations ≠ 0)
    (hscalar : ∀ nonce, finalizeSuffixScalar prefixState bits nonce = hashOf nonce)
    (hbatch : ∀ (nonces : Vector UInt32 4) {i : Nat} (hi : i < 4),
      (finalizeSuffixBatch4 prefixState bits nonces)[i] = hashOf nonces[i])
    (useAvx2 : Bool) {chunkFuel : Nat} (hfuels : job.maxIterations.toNat < chunkFuel) :
    ∀ {fuel k : Nat}, k ≤ job.maxIterations.toNat → job.maxIterations.toNat - k < fuel →
      (∀ j < k, meets hashOf job.target start job.nonceStep j = false) →
      chunkLoop job prefixState bits useAvx2 chunkFuel fuel
        (.ofSearch (missed hashOf start job.nonceStep k)) (candidate start job.nonceStep k)
        = some (.ofSearch (outcome hashOf job.target start job.nonceStep job.maxIterations.toNat))
  | 0, k, _, hfuel, _ => absurd hfuel (Nat.not_lt_zero _)
  | fuel + 1, k, hk, hfuel, hmissed => by
      have hcount : (PowWorkerResult.ofSearch (missed hashOf start job.nonceStep k)).iterations
          = UInt64.ofNat k := iterations_missed k
      rw [chunkLoop, hcount]
      by_cases hlt : k < job.maxIterations.toNat
      · rw [if_pos ((goesOn_iff hmax hk).mpr hlt)]
        have hremaining := toNat_remaining hmax hk kChunkIterations
        generalize (if job.maxIterations = 0 then kChunkIterations
          else min kChunkIterations (job.maxIterations - UInt64.ofNat k)) = remaining
          at hremaining ⊢
        have hm : 0 < remaining.toNat ∧ k + remaining.toNat ≤ job.maxIterations.toNat := by
          rw [hremaining, show kChunkIterations.toNat = 4096 from rfl]
          omega
        obtain ⟨hpos, hwithin⟩ := hm
        have hsome : remaining ≠ 0 := fun hzero => by
          rw [hzero] at hpos
          exact Nat.lt_irrefl 0 hpos
        have hchunk : runNonceSearchX86_64 prefixState bits job.target job.nonceStep chunkFuel
            (candidate start job.nonceStep k) remaining useAvx2
            = some (outcome hashOf job.target (candidate start job.nonceStep k) job.nonceStep
                remaining.toNat) := by
          have hloop := x86Loop_eq job.target (candidate start job.nonceStep k) job.nonceStep
            hsome hscalar hbatch useAvx2 (Nat.zero_le remaining.toNat)
            (show remaining.toNat - 0 < chunkFuel by omega) fun j hj => absurd hj j.not_lt_zero
          rwa [candidate_zero] at hloop
        have hadd := outcome_add hpos hmissed
        simp only [hchunk, iterations_outcome hpos remaining.toNat_lt, if_false]
        generalize outcome hashOf job.target (candidate start job.nonceStep k) job.nonceStep
          remaining.toNat = chunk at hadd ⊢
        -- the chunk's fields are those of the search so far
        rcases outcome_cases hashOf job.target start job.nonceStep (k + remaining.toNat)
          with ⟨j, hj, hmeets, hbefore, houtcome⟩ | ⟨hmissed, houtcome⟩
        · have hfound : chunk.found = true :=
            (congrArg NonceSearchResult.found (houtcome.symm.trans hadd)).symm
          rw [outcome_of_hit (by omega) hmeets hbefore, ← houtcome, hadd, if_pos hfound]
          simp only [PowWorkerResult.ofSearch, hfound]
        · have hfields := houtcome.symm.trans hadd
          have hfound : chunk.found = false :=
            (congrArg NonceSearchResult.found hfields).symm.trans (found_missed _)
          have hnext : chunk.nextNonce = candidate start job.nonceStep (k + remaining.toNat) :=
            (congrArg NonceSearchResult.nextNonce hfields).symm.trans
              (nextNonce_missed (by omega))
          have hresult : { PowWorkerResult.ofSearch (missed hashOf start job.nonceStep k) with
              iterations := UInt64.ofNat k + chunk.iterations, hash := chunk.hash }
              = PowWorkerResult.ofSearch
                  (missed hashOf start job.nonceStep (k + remaining.toNat)) := by
            rw [PowWorkerResult.ofSearch, PowWorkerResult.ofSearch, found_missed, found_missed,
              nonce_missed, nonce_missed, congrArg NonceSearchResult.iterations hfields,
              congrArg NonceSearchResult.hash hfields]
          rw [hfound, if_neg Bool.false_ne_true, hnext]
          exact (congrArg (chunkLoop job prefixState bits useAvx2 chunkFuel fuel · _)
            hresult).trans (chunkLoop_eq job hmax hscalar hbatch useAvx2 hfuels hwithin (by omega)
              hmissed)
      · obtain rfl : k = job.maxIterations.toNat := by omega
        rw [if_neg (fun h => hlt ((goesOn_iff hmax hk).mp h)), outcome_of_missed hmissed]

end Loops

end Cryptex.Miner
