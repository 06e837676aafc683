import Cryptex.CompactTargets
import Cryptex.Difficulty

/-!
# The range of the difficulty

What `get_next_work_required` returns over a history whose targets are between
two and the limit: the sums of its loops stay below 64 bits, nothing is divided
by zero, and the bits are those of a target up to the limit. And the later the
candidate, the higher its target.
-/

namespace Cryptex

open CompactTarget

/-! ## The branches -/

section

variable (p : ChainParams) (hist : List BlockHeader) (bestHeight : Nat) (lastBits : UInt32)

/-- `effective_candidate_timestamp`. -/
def effectiveTimestamp (candidateTimestamp : UInt32) : UInt32 :=
  max candidateTimestamp ((headerAt hist bestHeight).timestamp + 1)

/-- `candidate_gap`. -/
def candidateGap (candidateTimestamp : UInt32) : Int :=
  clampSolvetime ((effectiveTimestamp hist bestHeight candidateTimestamp).toNat -
    (headerAt hist bestHeight).timestamp.toNat)

/-- The candidate is so late that it gets the limit. -/
def minDifficultyDue (candidateTimestamp : UInt32) : Bool :=
  let last := headerAt hist bestHeight
  let effective := effectiveTimestamp hist bestHeight candidateTimestamp
  (p.allowMinDifficultyBlocks &&
      effective > last.timestamp + UInt32.ofNat (Constants.blockTimeSeconds * 2)) ||
    (p.emergencyMinDifficultyDelaySeconds > 0 &&
      effective ≥ last.timestamp + p.emergencyMinDifficultyDelaySeconds)

def lastWasEmergency : Bool :=
  isEmergencyMinDifficultyBlock p (headerAt hist (bestHeight - 1)) (headerAt hist bestHeight)

/-- The number of samples of the weighted average. -/
def lwmaWindow : Nat := min bestHeight Constants.difficultyLwmaWindow

/-- The weighted average of the targets. -/
def averageTarget : Nat :=
  let sums := lwmaSums p hist bestHeight (lwmaWindow bestHeight)
  sums.weightedTargets / sums.totalWeight

/-- The dampened average, not below what the moving average asks for. -/
def smoothedTarget (gap : Int) : Nat :=
  let next := lwmaTarget (lwmaSums p hist bestHeight (lwmaWindow bestHeight))
  if p.useEmaDifficulty then
    max next ((CompactTarget.mk lastBits).expand * emaSolvetime p hist bestHeight gap /
      (Constants.blockTimeSeconds * emaScale))
  else next

/-- The target of the averaging branch before it is capped. -/
def averagedTarget (gap : Int) : Nat :=
  let next := smoothedTarget p hist bestHeight lastBits gap
  if gap > Constants.blockTimeSeconds then
    max next ((CompactTarget.mk lastBits).expand * gap.toNat / Constants.blockTimeSeconds)
  else next

/-- The branch that averages the history. -/
structure Averaging (candidateTimestamp : UInt32) : Prop where
  adjusted : p.fixedDifficulty = false
  beyond : bestHeight ≠ 0
  inTime : minDifficultyDue p hist bestHeight candidateTimestamp = false
  stable : lastWasEmergency p hist bestHeight = false
  samples : 6 ≤ lwmaWindow bestHeight

theorem ite_ite_same {α : Type*} (a b : Bool) (x y : α) :
    (if a then x else if b then x else y) = if a || b then x else y := by
  cases a <;> rfl

theorem getNextWorkRequired_eq (candidateTimestamp : UInt32) :
    getNextWorkRequired p hist bestHeight lastBits candidateTimestamp =
      if p.fixedDifficulty then p.powLimitBits
      else if bestHeight = 0 then lastBits
      else if minDifficultyDue p hist bestHeight candidateTimestamp then p.powLimitBits
      else if lastWasEmergency p hist bestHeight then
        lastNonEmergencyBits p hist lastBits bestHeight
      else if lwmaWindow bestHeight < 6 then lastBits
      else
        (fromTarget (clampToPowLimit p (averagedTarget p hist bestHeight lastBits
          (candidateGap hist bestHeight candidateTimestamp)))).bits := by
  rw [getNextWorkRequired]
  dsimp only
  rw [ite_ite_same]
  rfl

end

/-! ## Samples -/

theorem u64_of_lt {x : Nat} (h : x < 2 ^ 64) : u64 x = x := Nat.mod_eq_of_lt h

theorem clampSolvetime_ge (x : Int) : 100 ≤ clampSolvetime x := by
  simp only [clampSolvetime, Constants.difficultyMinSolvetime, Constants.difficultyMaxSolvetime,
    Constants.blockTimeSeconds]
  split_ifs <;> omega

theorem clampSolvetime_le (x : Int) : clampSolvetime x ≤ 3600 := by
  simp only [clampSolvetime, Constants.difficultyMinSolvetime, Constants.difficultyMaxSolvetime,
    Constants.blockTimeSeconds]
  split_ifs <;> omega

theorem clampSolvetime_mono {x y : Int} (h : x ≤ y) : clampSolvetime x ≤ clampSolvetime y := by
  simp only [clampSolvetime, Constants.difficultyMinSolvetime, Constants.difficultyMaxSolvetime,
    Constants.blockTimeSeconds]
  split_ifs <;> omega

section

variable (p : ChainParams) (hist : List BlockHeader) (bestHeight window : Nat)

/-- The solve time of a sample of the weighted average. -/
def sampleSolvetime (h : Nat) : Int :=
  if isEmergencyMinDifficultyBlock p (headerAt hist (h - 1)) (headerAt hist h) then
    Constants.blockTimeSeconds
  else solvetimeAt hist h

/-- The sums of the averaging loop after its first rounds. -/
def lwmaPrefix (rounds : Nat) : LwmaSums :=
  (List.range rounds).foldl (lwmaStep p hist bestHeight window)
    { lastStableTarget := (CompactTarget.mk (headerAt hist (bestHeight - window)).bits).expand }

theorem lwmaPrefix_succ (rounds : Nat) : lwmaPrefix p hist bestHeight window (rounds + 1)
    = lwmaStep p hist bestHeight window (lwmaPrefix p hist bestHeight window rounds) rounds := by
  rw [lwmaPrefix, List.range_succ, List.foldl_append]
  rfl

theorem sampleSolvetime_toNat_le (h : Nat) : (sampleSolvetime p hist h).toNat ≤ 3600 := by
  rw [sampleSolvetime]
  split
  · decide
  · have hle := clampSolvetime_le ((headerAt hist h).timestamp.toNat - (headerAt hist (h - 1)).timestamp.toNat)
    rw [solvetimeAt]
    omega

/-! ## The weighted average -/

/-- The sums of the weights and of the weighted solve times. -/
structure LwmaBounds (rounds : Nat) (sums : LwmaSums) : Prop where
  weight : 2 * sums.totalWeight = rounds * (rounds + 1)
  solvetime : sums.weightedSolvetime ≤ 3600 * sums.totalWeight

theorem LwmaBounds.weight_le {rounds : Nat} {sums : LwmaSums} (h : LwmaBounds rounds sums)
    (hrounds : rounds ≤ 72) : sums.totalWeight ≤ 2628 := by
  have hmul : rounds * (rounds + 1) ≤ 72 * 73 := Nat.mul_le_mul hrounds (Nat.succ_le_succ hrounds)
  have hweight := h.weight
  omega

/-- What a round adds. -/
structure RoundAdds (rounds : Nat) (sums : LwmaSums) : Prop where
  sample : (sampleSolvetime p hist (bestHeight - window + 1 + rounds)).toNat * (rounds + 1) < 2 ^ 64
  solvetime : sums.weightedSolvetime +
    (sampleSolvetime p hist (bestHeight - window + 1 + rounds)).toNat * (rounds + 1) < 2 ^ 64
  weight : sums.totalWeight + (rounds + 1) < 2 ^ 64

variable {p hist bestHeight window}

theorem LwmaBounds.adds {rounds : Nat} {sums : LwmaSums} (h : LwmaBounds rounds sums)
    (hrounds : rounds < 72) : RoundAdds p hist bestHeight window rounds sums := by
  have hsample := sampleSolvetime_toNat_le p hist (bestHeight - window + 1 + rounds)
  have hproduct : (sampleSolvetime p hist (bestHeight - window + 1 + rounds)).toNat * (rounds + 1)
      ≤ 3600 * 72 := Nat.mul_le_mul hsample hrounds
  have hweight := h.weight_le hrounds.le
  have hsolvetime := h.solvetime
  exact ⟨by omega, by omega, by omega⟩

theorem LwmaBounds.step {rounds : Nat} {sums : LwmaSums} (h : LwmaBounds rounds sums)
    (hrounds : rounds < 72) :
    LwmaBounds (rounds + 1) (lwmaStep p hist bestHeight window sums rounds) := by
  have hadds : RoundAdds p hist bestHeight window rounds sums := h.adds hrounds
  have hone : u64 (rounds + 1) = rounds + 1 := u64_of_lt (by omega)
  have hweight : (lwmaStep p hist bestHeight window sums rounds).totalWeight
      = sums.totalWeight + (rounds + 1) := by
    simp only [lwmaStep, hone]
    exact u64_of_lt hadds.weight
  have hsolvetime : (lwmaStep p hist bestHeight window sums rounds).weightedSolvetime
      = sums.weightedSolvetime +
        (sampleSolvetime p hist (bestHeight - window + 1 + rounds)).toNat * (rounds + 1) := by
    simp only [lwmaStep, hone]
    change u64 (_ + u64 ((sampleSolvetime p hist (bestHeight - window + 1 + rounds)).toNat * _)) = _
    rw [u64_of_lt hadds.sample, u64_of_lt hadds.solvetime]
  refine ⟨?_, ?_⟩
  · rw [hweight, Nat.mul_add, h.weight]
    ring
  · have hsample := Nat.mul_le_mul_right (rounds + 1)
      (sampleSolvetime_toNat_le p hist (bestHeight - window + 1 + rounds))
    have hold := h.solvetime
    rw [hweight, hsolvetime]
    omega

theorem lwmaPrefix_bounds : ∀ {rounds : Nat}, rounds ≤ 72 →
    LwmaBounds rounds (lwmaPrefix p hist bestHeight window rounds)
  | 0, _ => ⟨rfl, Nat.le_refl 0⟩
  | rounds + 1, h => by
      rw [lwmaPrefix_succ]
      exact (lwmaPrefix_bounds (Nat.le_of_succ_le h)).step h

/-- Targets of at least two have an average of at least two. -/
structure LwmaTargets (sums : LwmaSums) : Prop where
  sum : 2 * sums.totalWeight ≤ sums.weightedTargets
  last : 2 ≤ sums.lastStableTarget

theorem LwmaTargets.step {rounds : Nat} {sums : LwmaSums} (h : LwmaTargets sums)
    (hbounds : LwmaBounds rounds sums) (hrounds : rounds < 72)
    (htarget : 2 ≤ (CompactTarget.mk (headerAt hist (bestHeight - window + 1 + rounds)).bits).expand) :
    LwmaTargets (lwmaStep p hist bestHeight window sums rounds) := by
  have hadds : RoundAdds p hist bestHeight window rounds sums := hbounds.adds hrounds
  have hone : u64 (rounds + 1) = rounds + 1 := u64_of_lt (by omega)
  have hweight : (lwmaStep p hist bestHeight window sums rounds).totalWeight
      = sums.totalWeight + (rounds + 1) := by
    simp only [lwmaStep, hone]
    exact u64_of_lt hadds.weight
  have hlast : 2 ≤ (lwmaStep p hist bestHeight window sums rounds).lastStableTarget := by
    simp only [lwmaStep]
    split
    · exact h.last
    · exact htarget
  have htargets : (lwmaStep p hist bestHeight window sums rounds).weightedTargets
      = sums.weightedTargets +
        (lwmaStep p hist bestHeight window sums rounds).lastStableTarget * (rounds + 1) := by
    simp only [lwmaStep, hone]
  refine ⟨?_, hlast⟩
  have hsample := Nat.mul_le_mul_right (rounds + 1) hlast
  rw [hweight, htargets, Nat.mul_add]
  exact Nat.add_le_add h.sum hsample

theorem lwmaPrefix_targets (hwindow : window ≤ 72) (hheight : window ≤ bestHeight)
    (htarget : ∀ h ≤ bestHeight, 2 ≤ (CompactTarget.mk (headerAt hist h).bits).expand) :
    ∀ {rounds : Nat}, rounds ≤ window → LwmaTargets (lwmaPrefix p hist bestHeight window rounds)
  | 0, _ => ⟨Nat.le_refl 0, htarget _ (Nat.sub_le _ _)⟩
  | rounds + 1, h => by
      rw [lwmaPrefix_succ]
      exact (lwmaPrefix_targets hwindow hheight htarget (Nat.le_of_succ_le h)).step
        (lwmaPrefix_bounds (by omega)) (by omega) (htarget _ (by omega))

end

/-! ## The moving average -/

section

/-- A round of the moving average. -/
def emaBlend (alphaDen ema sample : Nat) : Nat :=
  u64 (u64 ((alphaDen - 2) * ema) + u64 (2 * sample * emaScale)) / alphaDen

/-- What a round adds up. -/
structure BlendAdds (alphaDen ema sample : Nat) : Prop where
  old : (alphaDen - 2) * ema < 2 ^ 64
  new : 2 * sample * emaScale < 2 ^ 64
  sum : (alphaDen - 2) * ema + 2 * sample * emaScale < 2 ^ 64

/-- The largest value of the moving average. -/
def emaMax : Nat := 3600 * emaScale

variable {alphaDen ema sample : Nat}

theorem blendAdds (hden : alphaDen ≤ 2 ^ 32) (hema : ema ≤ emaMax) (hsample : sample ≤ 3600) :
    BlendAdds alphaDen ema sample := by
  have hold : (alphaDen - 2) * ema ≤ 2 ^ 32 * emaMax :=
    Nat.mul_le_mul ((Nat.sub_le _ _).trans hden) hema
  have hmax : emaMax = 3686400 := rfl
  have hnew : 2 * sample * emaScale ≤ 2 * 3600 * 1024 :=
    Nat.mul_le_mul (Nat.mul_le_mul_left 2 hsample) (Nat.le_refl 1024)
  rw [hmax] at hold
  exact ⟨by omega, by omega, by omega⟩

theorem emaBlend_eq (h : BlendAdds alphaDen ema sample) : emaBlend alphaDen ema sample
    = ((alphaDen - 2) * ema + 2 * sample * emaScale) / alphaDen := by
  rw [emaBlend, u64_of_lt h.old, u64_of_lt h.new, u64_of_lt h.sum]

theorem emaBlend_le (hden : alphaDen ≤ 2 ^ 32) (htwo : 2 ≤ alphaDen) (hema : ema ≤ emaMax)
    (hsample : sample ≤ 3600) : emaBlend alphaDen ema sample ≤ emaMax := by
  rw [emaBlend_eq (blendAdds hden hema hsample)]
  refine Nat.div_le_of_le_mul ?_
  have hold : (alphaDen - 2) * ema ≤ (alphaDen - 2) * emaMax := Nat.mul_le_mul_left _ hema
  have hnew : 2 * sample * emaScale ≤ 2 * emaMax := by
    rw [Nat.mul_assoc]
    exact Nat.mul_le_mul_left 2 (Nat.mul_le_mul_right _ hsample)
  calc (alphaDen - 2) * ema + 2 * sample * emaScale
      ≤ (alphaDen - 2) * emaMax + 2 * emaMax := Nat.add_le_add hold hnew
    _ = alphaDen * emaMax := by rw [← Nat.add_mul, Nat.sub_add_cancel htwo]

theorem emaBlend_mono {sample' : Nat} (hden : alphaDen ≤ 2 ^ 32) (hema : ema ≤ emaMax)
    (hle : sample ≤ sample') (hsample' : sample' ≤ 3600) :
    emaBlend alphaDen ema sample ≤ emaBlend alphaDen ema sample' := by
  rw [emaBlend_eq (blendAdds hden hema (hle.trans hsample')),
    emaBlend_eq (blendAdds hden hema hsample')]
  exact Nat.div_le_div_right (Nat.add_le_add_left
    (Nat.mul_le_mul_right _ (Nat.mul_le_mul_left 2 hle)) _)

variable (p : ChainParams) (hist : List BlockHeader) (bestHeight : Nat)

/-- `ema_window`. -/
def emaWindow : Nat := min bestHeight (max p.emaWindow.toNat 1)

/-- The moving average after the first rounds of its loop. -/
def emaPrefix (rounds : Nat) : Nat :=
  (List.range rounds).foldl
    (fun ema i => emaBlend (emaWindow p bestHeight + 1) ema
      (solvetimeAt hist (bestHeight - emaWindow p bestHeight + 1 + i)).toNat)
    (Constants.blockTimeSeconds * emaScale)

theorem emaSolvetime_eq (gap : Int) : emaSolvetime p hist bestHeight gap
    = emaBlend (emaWindow p bestHeight + 1) (emaPrefix p hist bestHeight (emaWindow p bestHeight))
      gap.toNat := rfl

theorem emaPrefix_succ (rounds : Nat) : emaPrefix p hist bestHeight (rounds + 1)
    = emaBlend (emaWindow p bestHeight + 1) (emaPrefix p hist bestHeight rounds)
      (solvetimeAt hist (bestHeight - emaWindow p bestHeight + 1 + rounds)).toNat := by
  rw [emaPrefix, List.range_succ, List.foldl_append]
  rfl

variable {p hist bestHeight}

theorem alphaDen_le : emaWindow p bestHeight + 1 ≤ 2 ^ 32 := by
  have hword := p.emaWindow.toNat_lt
  rw [emaWindow]
  omega

theorem two_le_alphaDen (h : bestHeight ≠ 0) : 2 ≤ emaWindow p bestHeight + 1 := by
  rw [emaWindow]
  omega

theorem solvetimeAt_toNat_le (h : Nat) : (solvetimeAt hist h).toNat ≤ 3600 := by
  have hle := clampSolvetime_le
    ((headerAt hist h).timestamp.toNat - (headerAt hist (h - 1)).timestamp.toNat)
  rw [solvetimeAt]
  omega

theorem emaPrefix_le (h : bestHeight ≠ 0) : ∀ (rounds : Nat),
    emaPrefix p hist bestHeight rounds ≤ emaMax
  | 0 => Nat.mul_le_mul_right _ (by decide : 600 ≤ 3600)
  | rounds + 1 => by
      rw [emaPrefix_succ]
      exact emaBlend_le alphaDen_le (two_le_alphaDen h) (emaPrefix_le h rounds)
        (solvetimeAt_toNat_le _)

theorem emaSolvetime_mono (h : bestHeight ≠ 0) {gap gap' : Int} (hle : gap ≤ gap')
    (hgap' : gap' ≤ 3600) :
    emaSolvetime p hist bestHeight gap ≤ emaSolvetime p hist bestHeight gap' := by
  rw [emaSolvetime_eq, emaSolvetime_eq]
  exact emaBlend_mono alphaDen_le (emaPrefix_le h _) (by omega) (by omega)

end

/-! ## Canonical histories -/

/-- The canonical bits of a target up to the limit. -/
structure UpToLimit (p : ChainParams) (bits : UInt32) : Prop where
  canonical : (CompactTarget.mk bits).isCanonical 64 = true
  le : (CompactTarget.mk bits).expand ≤ (CompactTarget.mk p.powLimitBits).expand

/-- The limit, the headers of a history and the bits of its tip are canonical
and up to the limit. -/
structure CanonicalHistory (p : ChainParams) (hist : List BlockHeader) (bestHeight : Nat)
    (lastBits : UInt32) : Prop where
  limit : (CompactTarget.mk p.powLimitBits).isCanonical 64 = true
  header : ∀ h ≤ bestHeight, UpToLimit p (headerAt hist h).bits
  last : UpToLimit p lastBits

section

variable {p : ChainParams} {hist : List BlockHeader} {bestHeight : Nat} {lastBits : UInt32}

theorem CanonicalHistory.upToLimit (h : CanonicalHistory p hist bestHeight lastBits) :
    UpToLimit p p.powLimitBits := ⟨h.limit, Nat.le_refl _⟩

/-- The bits to which the difficulty returns after an emergency block. -/
theorem lastNonEmergencyBits_mem (fallback : UInt32) : ∀ cursor,
    lastNonEmergencyBits p hist fallback cursor = fallback ∨
      ∃ h ≤ cursor, lastNonEmergencyBits p hist fallback cursor = (headerAt hist h).bits
  | 0 => .inl rfl
  | cursor + 1 => by
      rw [lastNonEmergencyBits]
      split
      · exact (lastNonEmergencyBits_mem fallback cursor).imp id fun ⟨h, hle, hbits⟩ =>
          ⟨h, Nat.le_succ_of_le hle, hbits⟩
      · exact .inr ⟨cursor + 1, Nat.le_refl _, rfl⟩

theorem clampToPowLimit_le (p : ChainParams) (target : Nat) :
    clampToPowLimit p target ≤ (CompactTarget.mk p.powLimitBits).expand := by
  rw [clampToPowLimit]
  split <;> omega

theorem clampToPowLimit_mono (p : ChainParams) {target target' : Nat} (h : target ≤ target') :
    clampToPowLimit p target ≤ clampToPowLimit p target' := by
  rw [clampToPowLimit, clampToPowLimit]
  split <;> split <;> omega

/-- The bits that may be asked of a block. -/
structure ValidWork (p : ChainParams) (bits : UInt32) : Prop where
  canonical : (CompactTarget.mk bits).isCanonical 64 = true
  positive : (CompactTarget.mk bits).isNegative = false
  nonzero : (CompactTarget.mk bits).isZero = false
  fits : (CompactTarget.mk bits).overflows 64 = false
  le : (CompactTarget.mk bits).expand ≤ (CompactTarget.mk p.powLimitBits).expand

theorem UpToLimit.validWork {bits : UInt32} (h : UpToLimit p bits)
    (hne : (CompactTarget.mk bits).mantissa ≠ 0) : ValidWork p bits :=
  have hfits := fits_of_isCanonical h.canonical
  ⟨h.canonical, hfits.1, decide_eq_false hne, hfits.2, h.le⟩

theorem mantissa_ne_zero {bits : UInt32} (h : 2 ≤ (CompactTarget.mk bits).expand) :
    (CompactTarget.mk bits).mantissa ≠ 0 := by
  intro hzero
  rw [expand_eq, hzero, LeadingDigits.unpack, Nat.zero_mul, Nat.zero_div] at h
  exact absurd h (by decide)

/-- A capped target is rounded to bits up to the limit. -/
theorem upToLimit_fromTarget (hlimit : (CompactTarget.mk p.powLimitBits).isCanonical 64 = true)
    (target : Nat) : UpToLimit p (fromTarget (clampToPowLimit p target)).bits := by
  have hle := clampToPowLimit_le p target
  have hlt := hle.trans_lt (expand_lt (fits_of_isCanonical hlimit).2)
  exact ⟨fromTarget_isCanonical hlt, (expand_fromTarget_le hlt).trans hle⟩

/-- Every branch returns bits up to the limit. -/
theorem CanonicalHistory.next_upToLimit (h : CanonicalHistory p hist bestHeight lastBits)
    (candidateTimestamp : UInt32) :
    UpToLimit p (getNextWorkRequired p hist bestHeight lastBits candidateTimestamp) := by
  rw [getNextWorkRequired_eq]
  split
  · exact h.upToLimit
  · split
    · exact h.last
    · split
      · exact h.upToLimit
      · split
        · rcases lastNonEmergencyBits_mem lastBits bestHeight with hbits | ⟨height, hle, hbits⟩
          · rw [hbits]
            exact h.last
          · rw [hbits]
            exact h.header height hle
        · split
          · exact h.last
          · exact upToLimit_fromTarget h.limit _

/-- The 64-bit operations of the averaging branch do not wrap. -/
structure NoWrap (p : ChainParams) (hist : List BlockHeader) (bestHeight : Nat) (gap : Int) :
    Prop where
  window : lwmaWindow bestHeight ≤ bestHeight
  rounds : ∀ i < lwmaWindow bestHeight, RoundAdds p hist bestHeight (lwmaWindow bestHeight) i
    (lwmaPrefix p hist bestHeight (lwmaWindow bestHeight) i)
  scaled : Constants.blockTimeSeconds *
    (lwmaSums p hist bestHeight (lwmaWindow bestHeight)).totalWeight < 2 ^ 64
  emaWindow : emaWindow p bestHeight ≤ bestHeight
  alpha : 2 ≤ Cryptex.emaWindow p bestHeight + 1
  blends : ∀ i < Cryptex.emaWindow p bestHeight,
    BlendAdds (Cryptex.emaWindow p bestHeight + 1) (emaPrefix p hist bestHeight i)
      (solvetimeAt hist (bestHeight - Cryptex.emaWindow p bestHeight + 1 + i)).toNat
  last : BlendAdds (Cryptex.emaWindow p bestHeight + 1)
    (emaPrefix p hist bestHeight (Cryptex.emaWindow p bestHeight)) gap.toNat

/-- Nor does it divide by zero. -/
structure NonzeroDivisors (p : ChainParams) (hist : List BlockHeader) (bestHeight : Nat) : Prop where
  weight : (lwmaSums p hist bestHeight (lwmaWindow bestHeight)).totalWeight ≠ 0
  scaled : u64 (Constants.blockTimeSeconds *
    (lwmaSums p hist bestHeight (lwmaWindow bestHeight)).totalWeight) ≠ 0
  alpha : emaWindow p bestHeight + 1 ≠ 0

theorem lwmaSums_bounds (p : ChainParams) (hist : List BlockHeader) (bestHeight : Nat) :
    LwmaBounds (lwmaWindow bestHeight) (lwmaSums p hist bestHeight (lwmaWindow bestHeight)) :=
  lwmaPrefix_bounds (Nat.min_le_right _ _)

theorem noWrap {candidateTimestamp : UInt32} (h : Averaging p hist bestHeight candidateTimestamp) :
    NoWrap p hist bestHeight (candidateGap hist bestHeight candidateTimestamp) where
  window := Nat.min_le_left _ _
  rounds i hi :=
    have hwindow : lwmaWindow bestHeight ≤ 72 := Nat.min_le_right _ _
    (lwmaPrefix_bounds (hi.le.trans hwindow)).adds (hi.trans_le hwindow)
  scaled := by
    have hweight := (lwmaSums_bounds p hist bestHeight).weight_le (Nat.min_le_right _ _)
    have htime : Constants.blockTimeSeconds = 600 := rfl
    rw [htime]
    omega
  emaWindow := Nat.min_le_left _ _
  alpha := two_le_alphaDen h.beyond
  blends i _ := blendAdds alphaDen_le (emaPrefix_le h.beyond i) (solvetimeAt_toNat_le _)
  last := by
    have hgap : candidateGap hist bestHeight candidateTimestamp ≤ 3600 := clampSolvetime_le _
    exact blendAdds alphaDen_le (emaPrefix_le h.beyond _) (by omega)

theorem nonzeroDivisors (hwindow : 6 ≤ lwmaWindow bestHeight) :
    NonzeroDivisors p hist bestHeight := by
  have hbounds := lwmaSums_bounds p hist bestHeight
  have hle := hbounds.weight_le (Nat.min_le_right _ _)
  have hweight : (lwmaSums p hist bestHeight (lwmaWindow bestHeight)).totalWeight ≠ 0 := by
    intro hzero
    have hprod := hbounds.weight
    rw [hzero, Nat.mul_zero] at hprod
    rcases Nat.mul_eq_zero.mp hprod.symm with h | h <;> omega
  have htime : Constants.blockTimeSeconds = 600 := rfl
  refine ⟨hweight, ?_, Nat.succ_ne_zero _⟩
  rw [htime, u64_of_lt (by omega)]
  omega

/-- Dampening keeps at least half of the average. -/
theorem half_average_le (p : ChainParams) (hist : List BlockHeader) (bestHeight : Nat)
    (lastBits : UInt32) (gap : Int) :
    averageTarget p hist bestHeight / 2 ≤ averagedTarget p hist bestHeight lastBits gap := by
  have hlwma : averageTarget p hist bestHeight / 2
      ≤ lwmaTarget (lwmaSums p hist bestHeight (lwmaWindow bestHeight)) := by
    rw [averageTarget, lwmaTarget]
    generalize (lwmaSums p hist bestHeight (lwmaWindow bestHeight)).weightedTargets /
      (lwmaSums p hist bestHeight (lwmaWindow bestHeight)).totalWeight = average
    split_ifs <;> omega
  have hsmoothed : lwmaTarget (lwmaSums p hist bestHeight (lwmaWindow bestHeight))
      ≤ smoothedTarget p hist bestHeight lastBits gap := by
    rw [smoothedTarget]
    split
    · exact le_max_left _ _
    · exact Nat.le_refl _
  rw [averagedTarget]
  split
  · exact (hlwma.trans hsmoothed).trans (le_max_left _ _)
  · exact hlwma.trans hsmoothed

theorem Averaging.next_eq {candidateTimestamp : UInt32}
    (h : Averaging p hist bestHeight candidateTimestamp) (lastBits : UInt32) :
    getNextWorkRequired p hist bestHeight lastBits candidateTimestamp =
      (fromTarget (clampToPowLimit p (averagedTarget p hist bestHeight lastBits
        (candidateGap hist bestHeight candidateTimestamp)))).bits := by
  rw [getNextWorkRequired_eq, h.adjusted, if_neg Bool.false_ne_true, if_neg h.beyond, h.inTime,
    if_neg Bool.false_ne_true, h.stable, if_neg Bool.false_ne_true,
    if_neg (Nat.not_lt.mpr h.samples)]

/-- Over targets of at least two the averaging branch never comes to zero. -/
theorem average_ge_two (hsamples : 6 ≤ lwmaWindow bestHeight)
    (htarget : ∀ h ≤ bestHeight, 2 ≤ (CompactTarget.mk (headerAt hist h).bits).expand) :
    2 ≤ averageTarget p hist bestHeight := by
  have htargets : LwmaTargets (lwmaSums p hist bestHeight (lwmaWindow bestHeight)) :=
    lwmaPrefix_targets (Nat.min_le_right _ _) (Nat.min_le_left _ _) htarget (Nat.le_refl _)
  exact (Nat.le_div_iff_mul_le (Nat.pos_of_ne_zero (nonzeroDivisors hsamples).weight)).mpr
    htargets.sum

/-- Over a history of canonical bits with targets from two to the limit, the
bits required next are valid whatever the candidate's time; where they are
averaged, no 64-bit operation wraps, no divisor is zero, and their target is
not below the rounded half of the weighted average. -/
theorem next_work_valid (h : CanonicalHistory p hist bestHeight lastBits)
    (htwo : ∀ h ≤ bestHeight, 2 ≤ (CompactTarget.mk (headerAt hist h).bits).expand)
    (hlast : 2 ≤ (CompactTarget.mk lastBits).expand) (candidateTimestamp : UInt32) :
    ValidWork p (getNextWorkRequired p hist bestHeight lastBits candidateTimestamp) ∧
      (Averaging p hist bestHeight candidateTimestamp →
        NoWrap p hist bestHeight (candidateGap hist bestHeight candidateTimestamp) ∧
        NonzeroDivisors p hist bestHeight ∧
        (fromTarget (clampToPowLimit p (averageTarget p hist bestHeight / 2))).expand ≤
          (CompactTarget.mk (getNextWorkRequired p hist bestHeight lastBits candidateTimestamp)).expand) := by
  have hlimit : 2 ≤ (CompactTarget.mk p.powLimitBits).expand := hlast.trans h.last.le
  constructor
  · refine (h.next_upToLimit candidateTimestamp).validWork ?_
    rw [getNextWorkRequired_eq]
    split_ifs with hfixed hgenesis hdue hemergency hfew
    · exact mantissa_ne_zero hlimit
    · exact mantissa_ne_zero hlast
    · exact mantissa_ne_zero hlimit
    · rcases lastNonEmergencyBits_mem lastBits bestHeight with hbits | ⟨height, hle, hbits⟩
      · rw [hbits]
        exact mantissa_ne_zero hlast
      · rw [hbits]
        exact mantissa_ne_zero (htwo height hle)
    · exact mantissa_ne_zero hlast
    · refine fromTarget_ne_zero ((clampToPowLimit_le p _).trans_lt
        (expand_lt (fits_of_isCanonical h.limit).2)) ?_
      have haverage := average_ge_two (p := p) (Nat.not_lt.mp hfew) htwo
      have hhalf := half_average_le p hist bestHeight lastBits
        (candidateGap hist bestHeight candidateTimestamp)
      rw [clampToPowLimit]
      split <;> omega
  · intro haveraging
    refine ⟨noWrap haveraging, nonzeroDivisors haveraging.samples, ?_⟩
    rw [haveraging.next_eq]
    exact expand_mono (clampToPowLimit_mono p (half_average_le p hist bestHeight lastBits _))
      ((clampToPowLimit_le p _).trans_lt (expand_lt (fits_of_isCanonical h.limit).2))

/-- The limits of the networks are canonical. -/
theorem networkLimits_canonical : ∀ p ∈ [ChainParams.mainnet, ChainParams.testnet, ChainParams.regtest],
    (CompactTarget.mk p.powLimitBits).isCanonical 64 = true := by
  decide +kernel

/-- Eight blocks of mainnet, ten minutes apart, at the limit. -/
def steadyHistory : List BlockHeader :=
  (List.range 8).map fun i => ⟨1, 0, 0, 1741478400 + 600 * UInt32.ofNat i, 0x3e00ffff, 0⟩

theorem steadyHistory_canonical : CanonicalHistory .mainnet steadyHistory 7 0x3e00ffff :=
  have hlimit : UpToLimit .mainnet 0x3e00ffff := ⟨by decide +kernel, Nat.le_refl _⟩
  have hbits : ∀ h ≤ 7, (headerAt steadyHistory h).bits = 0x3e00ffff := by decide
  ⟨by decide +kernel, fun h hle => by rw [hbits h hle]; exact hlimit, hlimit⟩

theorem next_work_valid_steady :
    ValidWork .mainnet (getNextWorkRequired .mainnet steadyHistory 7 0x3e00ffff 1741483200) ∧
      NoWrap .mainnet steadyHistory 7 (candidateGap steadyHistory 7 1741483200) :=
  have hwork := next_work_valid steadyHistory_canonical (by decide) (by decide)
    1741483200
  ⟨hwork.1, (hwork.2 ⟨rfl, by decide, by decide, by decide, by decide⟩).1⟩

/-! ## Waiting -/

theorem effectiveTimestamp_mono {t t' : UInt32} (h : t ≤ t') :
    (effectiveTimestamp hist bestHeight t).toNat ≤ (effectiveTimestamp hist bestHeight t').toNat := by
  rw [effectiveTimestamp, effectiveTimestamp, uint32_toNat_max, uint32_toNat_max]
  exact max_le_max_right _ (UInt32.le_iff_toNat_le.mp h)

theorem candidateGap_mono {t t' : UInt32} (h : t ≤ t') :
    candidateGap hist bestHeight t ≤ candidateGap hist bestHeight t' := by
  have heffective : (effectiveTimestamp hist bestHeight t).toNat
      ≤ (effectiveTimestamp hist bestHeight t').toNat := effectiveTimestamp_mono h
  exact clampSolvetime_mono (by omega)

/-- What is due stays due. -/
theorem minDifficultyDue_mono {t t' : UInt32} (h : t ≤ t')
    (hdue : minDifficultyDue p hist bestHeight t = true) :
    minDifficultyDue p hist bestHeight t' = true := by
  have heffective : (effectiveTimestamp hist bestHeight t).toNat
      ≤ (effectiveTimestamp hist bestHeight t').toNat := effectiveTimestamp_mono h
  simp only [minDifficultyDue, Bool.or_eq_true, Bool.and_eq_true, decide_eq_true_eq, gt_iff_lt,
    ge_iff_le, UInt32.lt_iff_toNat_lt, UInt32.le_iff_toNat_le] at hdue ⊢
  rcases hdue with ⟨hallow, hlate⟩ | ⟨hdelay, hlate⟩
  · exact .inl ⟨hallow, hlate.trans_le heffective⟩
  · exact .inr ⟨hdelay, hlate.trans heffective⟩

theorem smoothedTarget_mono (hbeyond : bestHeight ≠ 0) {gap gap' : Int} (h : gap ≤ gap')
    (hgap' : gap' ≤ 3600) : smoothedTarget p hist bestHeight lastBits gap
      ≤ smoothedTarget p hist bestHeight lastBits gap' := by
  rw [smoothedTarget, smoothedTarget]
  split
  · exact max_le_max_left _ (Nat.div_le_div_right
      (Nat.mul_le_mul_left _ (emaSolvetime_mono hbeyond h hgap')))
  · exact Nat.le_refl _

theorem averagedTarget_mono (hbeyond : bestHeight ≠ 0) {gap gap' : Int} (h : gap ≤ gap')
    (hgap' : gap' ≤ 3600) : averagedTarget p hist bestHeight lastBits gap
      ≤ averagedTarget p hist bestHeight lastBits gap' := by
  have hsmoothed : smoothedTarget p hist bestHeight lastBits gap
      ≤ smoothedTarget p hist bestHeight lastBits gap' := smoothedTarget_mono hbeyond h hgap'
  rw [averagedTarget, averagedTarget]
  split
  · next hlong =>
      rw [if_pos (lt_of_lt_of_le hlong h)]
      exact max_le_max hsmoothed (Nat.div_le_div_right
        (Nat.mul_le_mul_left _ (Int.toNat_le_toNat h)))
  · split
    · exact hsmoothed.trans (le_max_left _ _)
    · exact hsmoothed

/-- The later the candidate, the higher the target it has to meet. -/
theorem waiting_never_harder (h : CanonicalHistory p hist bestHeight lastBits) {t t' : UInt32}
    (hle : t ≤ t') :
    (CompactTarget.mk (getNextWorkRequired p hist bestHeight lastBits t)).expand ≤
      (CompactTarget.mk (getNextWorkRequired p hist bestHeight lastBits t')).expand := by
  by_cases hlate : p.fixedDifficulty = false ∧ bestHeight ≠ 0 ∧
      minDifficultyDue p hist bestHeight t' = true
  · -- a late candidate gets the limit, which no branch exceeds
    obtain ⟨hadjusted, hbeyond, hdue⟩ := hlate
    have hlimit : getNextWorkRequired p hist bestHeight lastBits t' = p.powLimitBits := by
      rw [getNextWorkRequired_eq, hadjusted, if_neg Bool.false_ne_true, if_neg hbeyond, if_pos hdue]
    rw [hlimit]
    exact (h.next_upToLimit t).le
  · rw [getNextWorkRequired_eq, getNextWorkRequired_eq]
    split
    · exact Nat.le_refl _
    · next hadjusted =>
        split
        · exact Nat.le_refl _
        · next hbeyond =>
            have hdue' : ¬ minDifficultyDue p hist bestHeight t' = true := fun hdue' =>
              hlate ⟨Bool.eq_false_iff.mpr hadjusted, hbeyond, hdue'⟩
            rw [if_neg (mt (minDifficultyDue_mono hle) hdue'), if_neg hdue']
            split
            · exact Nat.le_refl _
            · split
              · exact Nat.le_refl _
              · exact expand_mono (clampToPowLimit_mono p (averagedTarget_mono hbeyond
                    (candidateGap_mono hle) (clampSolvetime_le _)))
                  ((clampToPowLimit_le p _).trans_lt (expand_lt (fits_of_isCanonical h.limit).2))

theorem waiting_never_harder_steady :
    (CompactTarget.mk (getNextWorkRequired .mainnet steadyHistory 7 0x3e00ffff 1741483200)).expand ≤
      (CompactTarget.mk
        (getNextWorkRequired .mainnet steadyHistory 7 0x3e00ffff 1741483500)).expand :=
  waiting_never_harder steadyHistory_canonical (by decide)

end

end Cryptex
