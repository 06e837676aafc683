import Cryptex.Block

/-!
# Difficulty adjustment

`get_next_work_required`. The source looks headers up through a height map
and a header index; here the history is the list of headers from genesis,
so `hist.getD h default` is `index.at(height_map.at(h))`.

`uint64_t` intermediates wrap explicitly (`u64`), `uint32_t` timestamps wrap
by their type, targets are unbounded.
-/

namespace Cryptex

/-- A `uint64_t` value. -/
def u64 (x : Nat) : Nat := x % 2 ^ 64

def clampSolvetime (solvetime : Int) : Int :=
  if solvetime < Constants.difficultyMinSolvetime then Constants.difficultyMinSolvetime
  else if solvetime > Constants.difficultyMaxSolvetime then Constants.difficultyMaxSolvetime
  else solvetime

def clampToPowLimit (p : ChainParams) (target : Nat) : Nat :=
  let powLimit := (CompactTarget.mk p.powLimitBits).expand
  if target > powLimit then powLimit else target

def isEmergencyMinDifficultyBlock (p : ChainParams) (previous current : BlockHeader) : Bool :=
  p.emergencyMinDifficultyDelaySeconds > 0 && current.bits = p.powLimitBits &&
    current.timestamp ≥ previous.timestamp + p.emergencyMinDifficultyDelaySeconds

/-- `index.at(height_map.at(h))`. -/
def headerAt (hist : List BlockHeader) (h : Nat) : BlockHeader := hist.getD h default

/-- The clamped gap between the blocks at heights `h` and `h - 1`. -/
def solvetimeAt (hist : List BlockHeader) (h : Nat) : Int :=
  clampSolvetime ((headerAt hist h).timestamp.toNat - (headerAt hist (h - 1)).timestamp.toNat)

/-- The bits of the highest block at or below the cursor that is not an
emergency block; the scan stops above genesis. -/
def lastNonEmergencyBits (p : ChainParams) (hist : List BlockHeader) (fallbackBits : UInt32) :
    Nat → UInt32
  | 0 => fallbackBits
  | cursor + 1 =>
      if isEmergencyMinDifficultyBlock p (headerAt hist cursor) (headerAt hist (cursor + 1)) then
        lastNonEmergencyBits p hist fallbackBits cursor
      else (headerAt hist (cursor + 1)).bits

/-- The accumulators of the weighted averaging loop. -/
structure LwmaSums where
  weightedSolvetime : Nat := 0
  totalWeight : Nat := 0
  weightedTargets : Nat := 0
  lastStableTarget : Nat

/-- One round of the averaging loop. Emergency blocks count as neutral
samples: the nominal spacing and the last stable target. -/
def lwmaStep (p : ChainParams) (hist : List BlockHeader) (bestHeight window : Nat)
    (sums : LwmaSums) (offset : Nat) : LwmaSums :=
  let currentHeight := bestHeight - window + 1 + offset
  let current := headerAt hist currentHeight
  let emergency := isEmergencyMinDifficultyBlock p (headerAt hist (currentHeight - 1)) current
  let solvetime : Int :=
    if emergency then Constants.blockTimeSeconds else solvetimeAt hist currentHeight
  let sampleTarget :=
    if emergency then sums.lastStableTarget else (CompactTarget.mk current.bits).expand
  let weight := u64 (offset + 1)
  { weightedSolvetime := u64 (sums.weightedSolvetime + u64 (solvetime.toNat * weight))
    totalWeight := u64 (sums.totalWeight + weight)
    weightedTargets := sums.weightedTargets + sampleTarget * weight
    lastStableTarget := sampleTarget }

def lwmaSums (p : ChainParams) (hist : List BlockHeader) (bestHeight window : Nat) : LwmaSums :=
  (List.range window).foldl (lwmaStep p hist bestHeight window)
    { lastStableTarget := (CompactTarget.mk (headerAt hist (bestHeight - window)).bits).expand }

/-- The averaged target, dampened and kept within a factor of two of the
weighted average. -/
def lwmaTarget (sums : LwmaSums) : Nat :=
  let averageTarget := sums.weightedTargets / sums.totalWeight
  let next := (averageTarget * sums.weightedSolvetime) /
    u64 (Constants.blockTimeSeconds * sums.totalWeight)
  let next := (next + averageTarget * 3) / 4
  let next := if next < averageTarget / 2 then averageTarget / 2 else next
  if next > averageTarget * 2 then averageTarget * 2 else next

/-- `kScale`, the fixed-point unit of the moving average. -/
def emaScale : Nat := 1024

/-- The moving average of the solve times, the candidate's gap included. -/
def emaSolvetime (p : ChainParams) (hist : List BlockHeader) (bestHeight : Nat)
    (candidateGap : Int) : Nat :=
  let emaWindow := min bestHeight (max p.emaWindow.toNat 1)
  let alphaDen := emaWindow + 1
  let alphaNum := 2
  let blend := fun (ema sample : Nat) =>
    u64 (u64 ((alphaDen - alphaNum) * ema) + u64 (alphaNum * sample * emaScale)) / alphaDen
  let overHistory := (List.range emaWindow).foldl
    (fun ema i => blend ema (solvetimeAt hist (bestHeight - emaWindow + 1 + i)).toNat)
    (Constants.blockTimeSeconds * emaScale)
  blend overHistory candidateGap.toNat

/-- `get_next_work_required`: the bits a block after height `bestHeight` must
carry, given its timestamp. -/
def getNextWorkRequired (p : ChainParams) (hist : List BlockHeader) (bestHeight : Nat)
    (lastBits candidateTimestamp : UInt32) : UInt32 :=
  if p.fixedDifficulty then p.powLimitBits
  else if bestHeight = 0 then lastBits
  else
    let last := headerAt hist bestHeight
    let effective := max candidateTimestamp (last.timestamp + 1)
    let candidateGap := clampSolvetime (effective.toNat - last.timestamp.toNat)
    let lastWasEmergency := isEmergencyMinDifficultyBlock p (headerAt hist (bestHeight - 1)) last
    if p.allowMinDifficultyBlocks &&
        effective > last.timestamp + UInt32.ofNat (Constants.blockTimeSeconds * 2) then
      p.powLimitBits
    else if p.emergencyMinDifficultyDelaySeconds > 0 &&
        effective ≥ last.timestamp + p.emergencyMinDifficultyDelaySeconds then
      p.powLimitBits
    else if lastWasEmergency then lastNonEmergencyBits p hist lastBits bestHeight
    else
      let window := min bestHeight Constants.difficultyLwmaWindow
      if window < 6 then lastBits
      else
        let stableLastTarget := (CompactTarget.mk lastBits).expand
        let next := lwmaTarget (lwmaSums p hist bestHeight window)
        let next :=
          if p.useEmaDifficulty then
            max next (stableLastTarget * emaSolvetime p hist bestHeight candidateGap /
              (Constants.blockTimeSeconds * emaScale))
          else next
        let next :=
          if candidateGap > Constants.blockTimeSeconds then
            max next (stableLastTarget * candidateGap.toNat / Constants.blockTimeSeconds)
          else next
        (CompactTarget.fromTarget (clampToPowLimit p next)).bits

end Cryptex
