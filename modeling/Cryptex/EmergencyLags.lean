import Cryptex.DifficultyBounds

/-!
# Emergency blocks in the history

The weighted average takes an emergency block for a neutral sample, so that it
does not matter by how much the block lags its parent. The moving average takes
its solve time as it is, capped at an hour.
-/

namespace Cryptex

/-! ## Histories that differ in lags -/

section

variable (p : ChainParams) (hist : List BlockHeader)

/-- Whether the block at a height is an emergency block. -/
def emergencyAt (h : Nat) : Bool :=
  isEmergencyMinDifficultyBlock p (headerAt hist (h - 1)) (headerAt hist h)

/-- The time between a block and its parent. -/
def gapAt (h : Nat) : Int :=
  (headerAt hist h).timestamp.toNat - (headerAt hist (h - 1)).timestamp.toNat

variable (hist' : List BlockHeader) (bestHeight : Nat)

/-- Two histories with the same bits, whose tip is no emergency block, and that
differ only in the time by which emergency blocks lag their parents. -/
structure SameButLags : Prop where
  bits : ∀ h ≤ bestHeight, (headerAt hist' h).bits = (headerAt hist h).bits
  emergency : ∀ h ≤ bestHeight, 0 < h → emergencyAt p hist' h = emergencyAt p hist h
  gap : ∀ h ≤ bestHeight, 0 < h → emergencyAt p hist h = false → gapAt hist' h = gapAt hist h
  tip : emergencyAt p hist bestHeight = false

/-- No time that a candidate is compared with is beyond 32 bits. -/
structure NoTimeWrap : Prop where
  next : (headerAt hist bestHeight).timestamp.toNat + Constants.blockTimeSeconds * 2 < 2 ^ 32
  emergency : (headerAt hist bestHeight).timestamp.toNat +
    p.emergencyMinDifficultyDelaySeconds.toNat < 2 ^ 32

/-- The lags that the moving average samples are the same, once capped. -/
def SampledAlike : Prop :=
  ∀ h, bestHeight - emaWindow p bestHeight < h → h ≤ bestHeight →
    solvetimeAt hist' h = solvetimeAt hist h

end

section

variable {p : ChainParams} {hist hist' : List BlockHeader} {bestHeight : Nat}

theorem SameButLags.sampleSolvetime_eq (h : SameButLags p hist hist' bestHeight) {height : Nat}
    (hpos : 0 < height) (hle : height ≤ bestHeight) :
    sampleSolvetime p hist' height = sampleSolvetime p hist height := by
  have hemergency := h.emergency height hle hpos
  rw [emergencyAt, emergencyAt] at hemergency
  rw [Cryptex.sampleSolvetime, Cryptex.sampleSolvetime, hemergency]
  split
  · rfl
  · next hno =>
      have hgap := h.gap height hle hpos (Bool.eq_false_iff.mpr hno)
      exact congrArg clampSolvetime hgap

/-- A round of the averaging loop does not see the lags. -/
theorem SameButLags.lwmaStep_eq (h : SameButLags p hist hist' bestHeight) {window offset : Nat}
    (hwindow : window ≤ bestHeight) (hoffset : offset < window) (sums : LwmaSums) :
    lwmaStep p hist' bestHeight window sums offset
      = lwmaStep p hist bestHeight window sums offset := by
  have hpos : 0 < bestHeight - window + 1 + offset := by omega
  have hle : bestHeight - window + 1 + offset ≤ bestHeight := by omega
  have hemergency := h.emergency _ hle hpos
  have hbits := h.bits _ hle
  have hsample := h.sampleSolvetime_eq hpos hle
  rw [emergencyAt, emergencyAt] at hemergency
  rw [Cryptex.sampleSolvetime, Cryptex.sampleSolvetime] at hsample
  simp only [Cryptex.lwmaStep]
  rw [hsample, hemergency, hbits]

theorem SameButLags.lwmaPrefix_eq (h : SameButLags p hist hist' bestHeight) {window : Nat}
    (hwindow : window ≤ bestHeight) : ∀ {rounds : Nat}, rounds ≤ window →
      lwmaPrefix p hist' bestHeight window rounds = lwmaPrefix p hist bestHeight window rounds
  | 0, _ => by
      rw [Cryptex.lwmaPrefix, Cryptex.lwmaPrefix, h.bits _ (Nat.sub_le _ _)]
      rfl
  | rounds + 1, hrounds => by
      rw [lwmaPrefix_succ, lwmaPrefix_succ, h.lwmaPrefix_eq hwindow (Nat.le_of_succ_le hrounds),
        h.lwmaStep_eq hwindow hrounds]

/-- The moving average sees the lags that it samples only. -/
theorem SampledAlike.emaPrefix_eq (h : SampledAlike p hist hist' bestHeight) :
    ∀ {rounds : Nat}, rounds ≤ emaWindow p bestHeight →
      emaPrefix p hist' bestHeight rounds = emaPrefix p hist bestHeight rounds
  | 0, _ => by rw [emaPrefix, emaPrefix, List.range_zero, List.foldl_nil, List.foldl_nil]
  | rounds + 1, hrounds => by
      have hwindow : emaWindow p bestHeight ≤ bestHeight := Nat.min_le_left _ _
      rw [emaPrefix_succ, emaPrefix_succ, h.emaPrefix_eq (Nat.le_of_succ_le hrounds),
        h _ (by omega) (by omega)]

/-! ## Candidates -/

theorem toNat_effectiveTimestamp (h : NoTimeWrap p hist bestHeight) (t : UInt32) :
    (effectiveTimestamp hist bestHeight t).toNat
      = max t.toNat ((headerAt hist bestHeight).timestamp.toNat + 1) := by
  have hnext := h.next
  have htime : Constants.blockTimeSeconds = 600 := rfl
  rw [effectiveTimestamp, uint32_toNat_max, UInt32.toNat_add]
  congr 1
  exact Nat.mod_eq_of_lt (by rw [htime] at hnext; change _ + 1 < 2 ^ 32; omega)

variable {t t' : UInt32}
  (hgap : (t'.toNat : Int) - (headerAt hist' bestHeight).timestamp.toNat
    = t.toNat - (headerAt hist bestHeight).timestamp.toNat)
  (hwrap : NoTimeWrap p hist bestHeight) (hwrap' : NoTimeWrap p hist' bestHeight)
include hgap hwrap hwrap'

theorem candidateGap_eq : candidateGap hist' bestHeight t' = candidateGap hist bestHeight t := by
  rw [candidateGap, candidateGap, toNat_effectiveTimestamp hwrap, toNat_effectiveTimestamp hwrap']
  congr 1
  omega

theorem minDifficultyDue_eq :
    minDifficultyDue p hist' bestHeight t' = minDifficultyDue p hist bestHeight t := by
  have hadd : ∀ {hist : List BlockHeader}, NoTimeWrap p hist bestHeight →
      ((headerAt hist bestHeight).timestamp + UInt32.ofNat (Constants.blockTimeSeconds * 2)).toNat
          = (headerAt hist bestHeight).timestamp.toNat + Constants.blockTimeSeconds * 2 ∧
        ((headerAt hist bestHeight).timestamp + p.emergencyMinDifficultyDelaySeconds).toNat
          = (headerAt hist bestHeight).timestamp.toNat +
            p.emergencyMinDifficultyDelaySeconds.toNat := fun h =>
    ⟨(UInt32.toNat_add _ _).trans (Nat.mod_eq_of_lt h.next),
      (UInt32.toNat_add _ _).trans (Nat.mod_eq_of_lt h.emergency)⟩
  rw [Bool.eq_iff_iff]
  simp only [minDifficultyDue, Bool.or_eq_true, Bool.and_eq_true, decide_eq_true_eq, gt_iff_lt,
    ge_iff_le, UInt32.lt_iff_toNat_lt, UInt32.le_iff_toNat_le, (hadd hwrap).1, (hadd hwrap).2,
    (hadd hwrap').1, (hadd hwrap').2, toNat_effectiveTimestamp hwrap, toNat_effectiveTimestamp hwrap']
  refine or_congr (and_congr_right fun _ => ?_) (and_congr_right fun _ => ?_)
  · omega
  · omega

end

section

variable {p : ChainParams} {hist hist' : List BlockHeader} {bestHeight : Nat}

/-- Without the lags in the sample of the moving average, the averaging branch
does not see them. -/
theorem SameButLags.averagedTarget_eq (h : SameButLags p hist hist' bestHeight)
    (hsampled : p.useEmaDifficulty = true → SampledAlike p hist hist' bestHeight)
    (lastBits : UInt32) (gap : Int) : averagedTarget p hist' bestHeight lastBits gap
      = averagedTarget p hist bestHeight lastBits gap := by
  have hlwma : lwmaSums p hist' bestHeight (lwmaWindow bestHeight)
      = lwmaSums p hist bestHeight (lwmaWindow bestHeight) :=
    h.lwmaPrefix_eq (Nat.min_le_left _ _) (Nat.le_refl _)
  have hsmoothed : smoothedTarget p hist' bestHeight lastBits gap
      = smoothedTarget p hist bestHeight lastBits gap := by
    rw [smoothedTarget, smoothedTarget, hlwma]
    split
    · next huse =>
        rw [emaSolvetime_eq, emaSolvetime_eq, (hsampled huse).emaPrefix_eq (Nat.le_refl _)]
    · rfl
  rw [averagedTarget, averagedTarget, hsmoothed]

/-- The bits required next do not depend on the lags of emergency blocks as long
as the moving average does not sample lags that differ. -/
theorem emergency_neutral (h : SameButLags p hist hist' bestHeight) {lastBits t t' : UInt32}
    (hgap : (t'.toNat : Int) - (headerAt hist' bestHeight).timestamp.toNat
      = t.toNat - (headerAt hist bestHeight).timestamp.toNat)
    (hwrap : NoTimeWrap p hist bestHeight) (hwrap' : NoTimeWrap p hist' bestHeight)
    (hsampled : Averaging p hist bestHeight t → p.useEmaDifficulty = true →
      SampledAlike p hist hist' bestHeight) :
    getNextWorkRequired p hist' bestHeight lastBits t'
      = getNextWorkRequired p hist bestHeight lastBits t := by
  rw [getNextWorkRequired_eq, getNextWorkRequired_eq, minDifficultyDue_eq hgap hwrap hwrap']
  split
  · rfl
  · next hadjusted =>
      split
      · rfl
      · next hbeyond =>
          split
          · rfl
          · next hdue =>
              have hstable : lastWasEmergency p hist bestHeight = false := h.tip
              have hstable' : lastWasEmergency p hist' bestHeight = false :=
                (h.emergency bestHeight (Nat.le_refl _) (Nat.pos_of_ne_zero hbeyond)).trans h.tip
              rw [hstable, hstable', if_neg Bool.false_ne_true, if_neg Bool.false_ne_true]
              split
              · rfl
              · next hsamples =>
                  have haveraging : Averaging p hist bestHeight t :=
                    ⟨Bool.eq_false_iff.mpr hadjusted, hbeyond, Bool.eq_false_iff.mpr hdue, hstable,
                      Nat.not_lt.mp hsamples⟩
                  rw [candidateGap_eq hgap hwrap hwrap', h.averagedTarget_eq (hsampled haveraging)]

/-! ### Samples -/

/-- Sixteen blocks of mainnet, of which the twelfth is an emergency block with
the given lag; the others are ten minutes apart. -/
def rescuedHistory (lag : UInt32) : List BlockHeader :=
  (List.range 16).map fun i =>
    if i < 11 then ⟨1, 0, 0, 1741478400 + 600 * UInt32.ofNat i, 0x3c00ffff, 0⟩
    else if i = 11 then ⟨1, 0, 0, 1741484400 + lag, 0x3e00ffff, 0⟩
    else ⟨1, 0, 0, 1741484400 + lag + 600 * UInt32.ofNat (i - 11), 0x3c00ffff, 0⟩

theorem rescuedHistory_sameButLags :
    SameButLags .mainnet (rescuedHistory 3600) (rescuedHistory 1200) 15 ∧
      SameButLags .mainnet (rescuedHistory 3600) (rescuedHistory 7200) 15 :=
  ⟨⟨by decide, by decide, by decide, by decide⟩,
    ⟨by decide, by decide, by decide, by decide⟩⟩

/-- Lags of one hour and of two. -/
theorem emergency_neutral_rescued :
    getNextWorkRequired .mainnet (rescuedHistory 7200) 15 0x3c00ffff 1741494600
      = getNextWorkRequired .mainnet (rescuedHistory 3600) 15 0x3c00ffff 1741491000 :=
  have hsampled : ∀ h ≤ 15, solvetimeAt (rescuedHistory 7200) h = solvetimeAt (rescuedHistory 3600) h := by
    decide
  emergency_neutral rescuedHistory_sameButLags.2 (by decide) ⟨by decide, by decide⟩
    ⟨by decide, by decide⟩ fun _ _ h _ hle => hsampled h hle

/-- Lags of twenty minutes and of one hour. -/
theorem not_emergency_neutral : ¬ ∀ (hist hist' : List BlockHeader) (bestHeight : Nat)
    (lastBits t t' : UInt32), SameButLags .mainnet hist hist' bestHeight →
    (t'.toNat : Int) - (headerAt hist' bestHeight).timestamp.toNat
      = t.toNat - (headerAt hist bestHeight).timestamp.toNat →
    getNextWorkRequired .mainnet hist' bestHeight lastBits t'
      = getNextWorkRequired .mainnet hist bestHeight lastBits t := by
  intro hall
  have hsame := hall (rescuedHistory 3600) (rescuedHistory 1200) 15 0x3c00ffff 1741491000 1741488600
    rescuedHistory_sameButLags.1 (by decide)
  exact absurd hsame (by decide +kernel)

end

end Cryptex
