import Cryptex.Miner.WorkerJob
import Mathlib.Data.List.Nodup

/-!
# Nonce ranges

The mine loops of `main.cpp`, the local one and the one over RPC: rounds of
workers, each with every `thread_count`-th nonce, behind which the seed moves
on. The nonces that a worker holds against the target are listed beside the
loops of the miner, which do the same rounds.
-/

namespace Cryptex.Miner

/-! ## The nonces that are tried -/

/-- The nonces that `chunkLoop` tries. -/
def chunkTried (job : PowWorkerJob) (prefixState : Vector UInt64 25) (bits : UInt32)
    (useAvx2 : Bool) (chunkFuel : Nat) : Nat → PowWorkerResult → UInt32 → List UInt32
  | 0, _, _ => []
  | fuel + 1, result, nonce =>
      if job.maxIterations = 0 ∨ result.iterations < job.maxIterations then
        let remaining : UInt64 :=
          if job.maxIterations = 0 then kChunkIterations
          else min kChunkIterations (job.maxIterations - result.iterations)
        x86Tried prefixState bits job.target job.nonceStep remaining useAvx2 chunkFuel {} nonce ++
          match runNonceSearchX86_64 prefixState bits job.target job.nonceStep chunkFuel nonce
              remaining useAvx2 with
          | none => []
          | some chunk =>
              if chunk.iterations = 0 then []
              else
                let result := { result with
                  iterations := result.iterations + chunk.iterations, hash := chunk.hash }
                if chunk.found then []
                else chunkTried job prefixState bits useAvx2 chunkFuel fuel result chunk.nextNonce
      else []

/-- The nonces that a worker job tries. -/
def PowWorkerJob.tried (fuel : Nat) (useAvx2 : Bool) (job : PowWorkerJob) : List UInt32 :=
  chunkTried job (preparePrefixState job.header) (readU32Le (job.header.toList.drop 72)) useAvx2
    fuel fuel {} job.startNonce

/-! ## The mine loop -/

/-- The variables of the mine loop, with the nonces that were tried. -/
structure Mining where
  totalIter : UInt64 := 0
  nextNonceSeed : UInt32 := 0
  found : Option BlockHeader := none
  workerFailure : Bool := false
  tried : List UInt32 := []

section

variable (infinite : Bool) (cycles : UInt64) (threadCount : UInt32) (fuel : Nat) (useAvx2 : Bool)

end

/-! ## A search without a hit -/

section

variable {hashOf : UInt32 → PowHashBytes} {target : PowHashBytes} {start step : UInt32}

end

/-! ## The nonces of a job -/

section

variable {infinite : Bool} {cycles : UInt64} {threadCount : UInt32} {fuel : Nat} {useAvx2 : Bool}

/-- The nonces tried so far are those below the seed, each once. -/
structure Tiled (s : Mining) : Prop where
  totalIter : s.totalIter = UInt64.ofNat s.tried.length
  seed : s.nextNonceSeed = UInt32.ofNat s.tried.length
  tried : s.tried.Perm ((List.range s.tried.length).map UInt32.ofNat)

/-- The seed and the count move on by what the round has tried. -/
theorem Tiled.next {s : Mining} (hs : Tiled s) {limit : UInt64} {new : List UInt32}
    (hnew : new.Perm ((List.range (threadCount.toNat * limit.toNat)).map
      fun k => UInt32.ofNat (s.tried.length + k))) :
    Tiled
      { s with
        totalIter := s.totalIter + UInt64.ofNat threadCount.toNat * limit
        nextNonceSeed := s.nextNonceSeed + (threadCount.toUInt64 * limit).toUInt32
        tried := s.tried ++ new } := by
  have hlen : (s.tried ++ new).length = s.tried.length + threadCount.toNat * limit.toNat := by
    rw [List.length_append, hnew.length_eq, List.length_map, List.length_range]
  refine ⟨?_, ?_, ?_⟩
  · simp only [hlen, UInt64.ofNat_add, UInt64.ofNat_mul, UInt64.ofNat_toNat, hs.totalIter]
  · have hprod : (threadCount.toUInt64 * limit).toUInt32 =
        UInt32.ofNat (threadCount.toNat * limit.toNat) := by
      apply UInt32.toNat_inj.mp
      rw [UInt64.toNat_toUInt32, UInt64.toNat_mul, UInt32.toNat_toUInt64, UInt32.toNat_ofNat']
      omega
    simp only [hlen, UInt32.ofNat_add, hs.seed, hprod]
  · simp only [hlen]
    rw [List.range_add, List.map_append, List.map_map]
    exact hs.tried.append hnew

end

end Cryptex.Miner
