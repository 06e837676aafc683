import Cryptex.Coherence

/-!
# What a pass of `accept_block` can do

`Outcome` lists the ways in which a pass over a block can end, each with the
state it leaves and the facts that led there. `acceptOne_outcome` is the
inversion lemma: from a coherent state every pass is one of them.
-/

namespace Cryptex

open Forest

namespace Blockchain

/-- A cached block without work whose ancestors all have work, with its path. -/
structure Candidate (c : Crypto) (s : Blockchain) (blk : Block) (path : List Hash512) : Prop where
  linked : s.PathTo (blk.header.powHash c) path
  fresh : s.chainWork.lookup (blk.header.powHash c) = none
  parents : ∀ j ∈ path, j ≠ blk.header.powHash c → ∃ w, s.chainWork.lookup j = some w

section

variable (c : Crypto) (p : ChainParams) (env : Env) (skipPowCheck : Bool)

/-- The path is accepted in full by `validated_prefix_length`. -/
def PathValid (s : Blockchain) (path : List Hash512) : Prop :=
  (s.validatedPrefixLength c p env skipPowCheck path).length = path.length

/-- The candidate may replace the active chain: it agrees with the checkpoint
and does not roll back too much. -/
def PathAllowed (s : Blockchain) (path : List Hash512) : Prop :=
  s.candidateMatchesLocalCheckpoint path = true ∧
    (reorgDepthFromCandidate s.heightMap s.bestHeight path ≤ env.maxReorgDepth ∨
      env.allowDeepReorg = true)

/-- The ways in which a pass over `blk` from `s` can end. -/
inductive Outcome (s : Blockchain) (blk : Block) : Verdict → Blockchain → Prop where
  | rejected {v} : s.statelessCheck c p env skipPowCheck blk = some v → v.accepted = false →
      Outcome s blk v s
  | processed {w} : s.statelessCheck c p env skipPowCheck blk = none →
      s.chainWork.lookup (blk.header.powHash c) = some w →
      Outcome s blk .alreadyProcessed (s.cacheBlock c env blk)
  | orphan : s.statelessCheck c p env skipPowCheck blk = none →
      s.chainWork.lookup (blk.header.powHash c) = none →
      blk.header.prevBlockHash ≠ 0 →
      (∀ parent, s.linkIndex.lookup blk.header.prevBlockHash = some parent →
        s.chainWork.lookup parent = none) →
      Outcome s blk .orphan ((s.cacheBlock c env blk).rememberOrphan c blk)
  | invalid {path} : s.statelessCheck c p env skipPowCheck blk = none →
      Candidate c (s.cacheBlock c env blk) blk path →
      ¬ (s.cacheBlock c env blk).PathValid c p env skipPowCheck path →
      Outcome s blk .candidateInvalid
        (purgeCachedSubtree p env c (s.cacheBlock c env blk) (blk.header.powHash c))
  | side {path} : s.statelessCheck c p env skipPowCheck blk = none →
      Candidate c (s.cacheBlock c env blk) blk path →
      (s.cacheBlock c env blk).PathValid c p env skipPowCheck path →
      (s.cacheBlock c env blk).pathWork p path ≤ s.pathWork p s.heightMap →
      Outcome s blk .sideBranch
        ((s.cacheBlock c env blk).keepAside (blk.header.powHash c) (path.length - 1)
          ((s.cacheBlock c env blk).pathWork p path))
  | refused {path v} : s.statelessCheck c p env skipPowCheck blk = none →
      Candidate c (s.cacheBlock c env blk) blk path →
      (s.cacheBlock c env blk).PathValid c p env skipPowCheck path →
      s.pathWork p s.heightMap < (s.cacheBlock c env blk).pathWork p path →
      ¬ s.PathAllowed env path → v = .checkpointMismatch ∨ v = .deepReorg →
      Outcome s blk v (s.cacheBlock c env blk)
  | failed {path s'} : s.statelessCheck c p env skipPowCheck blk = none →
      Candidate c (s.cacheBlock c env blk) blk path →
      (s.cacheBlock c env blk).PathValid c p env skipPowCheck path →
      s.pathWork p s.heightMap < (s.cacheBlock c env blk).pathWork p path →
      s.PathAllowed env path →
      activatePath p env (s.cacheBlock c env blk) path
        ((s.cacheBlock c env blk).validatedPrefixLength c p env skipPowCheck path).utxo
        ((s.cacheBlock c env blk).validatedPrefixLength c p env skipPowCheck path).tipBits
          = (false, s') →
      Outcome s blk .activationFailed s'
  | switched {path s'} : s.statelessCheck c p env skipPowCheck blk = none →
      Candidate c (s.cacheBlock c env blk) blk path →
      (s.cacheBlock c env blk).PathValid c p env skipPowCheck path →
      s.pathWork p s.heightMap < (s.cacheBlock c env blk).pathWork p path →
      s.PathAllowed env path →
      activatePath p env (s.cacheBlock c env blk) path
        ((s.cacheBlock c env blk).validatedPrefixLength c p env skipPowCheck path).utxo
        ((s.cacheBlock c env blk).validatedPrefixLength c p env skipPowCheck path).tipBits
          = (true, s') →
      Outcome s blk .switched s'

end

variable {c : Crypto} {p : ChainParams} {env : Env} {skip : Bool} {H : Set BlockHeader}
  {s : Blockchain} {blk : Block}

theorem statelessCheck_not_accepted {v : Verdict}
    (h : s.statelessCheck c p env skip blk = some v) : v.accepted = false := by
  unfold statelessCheck at h
  repeat' split at h
  all_goals cases h
  all_goals rfl

/-- The end of a pass over a candidate. -/
theorem connect_outcome (hH : CollisionFree c H) (hs : s.Coherent c p H) (hb : blk.header ∈ H)
    (hcheck : s.statelessCheck c p env skip blk = none) {path : List Hash512}
    (hcand : Candidate c (s.cacheBlock c env blk) blk path) {height work : Nat}
    (hheight : height = path.length - 1)
    (hwork : work = (s.cacheBlock c env blk).pathWork p path) :
    Outcome c p env skip s blk
      ((s.cacheBlock c env blk).connect c p env skip blk height work).1
      ((s.cacheBlock c env blk).connect c p env skip blk height work).2 := by
  subst hheight hwork
  have hcoh : (s.cacheBlock c env blk).Coherent c p H := hs.cacheBlock hH hb
  have htip : (s.cacheBlock c env blk).pathWork p (s.cacheBlock c env blk).heightMap
      = s.pathWork p s.heightMap := cacheBlock_pathWork hH hs.index hb hs.active
  rw [connect, buildPathToGenesis_iff.mpr hcand.linked]
  simp only
  by_cases hvalid : (s.cacheBlock c env blk).PathValid c p env skip path
  · have hlen : ¬ ((s.cacheBlock c env blk).validatedPrefixLength c p env skip path).length
        ≠ path.length := not_not.mpr hvalid
    rw [if_neg hlen]
    by_cases hbeats : s.pathWork p s.heightMap < (s.cacheBlock c env blk).pathWork p path
    · rw [if_pos ((hcoh.beatsTip_iff _).mpr (htip ▸ hbeats)), switchTo]
      by_cases hcp : (s.cacheBlock c env blk).candidateMatchesLocalCheckpoint path = true
      · rw [hcp]
        simp only [Bool.not_true, Bool.false_eq_true, if_false]
        by_cases hdeep : reorgDepthFromCandidate s.heightMap s.bestHeight path
            > env.maxReorgDepth ∧ env.allowDeepReorg = false
        · rw [if_pos (by
            simp only [Bool.and_eq_true, decide_eq_true_eq, Bool.not_eq_true']
            exact hdeep)]
          refine .refused hcheck hcand hvalid hbeats ?_ (Or.inr rfl)
          rintro ⟨-, h | h⟩
          · exact absurd hdeep.1 (by omega)
          · rw [hdeep.2] at h; cases h
        · rw [if_neg (by
            simp only [Bool.and_eq_true, decide_eq_true_eq, Bool.not_eq_true']
            exact hdeep)]
          have hallowed : s.PathAllowed env path := by
            refine ⟨hcp, ?_⟩
            by_cases hdepth : reorgDepthFromCandidate s.heightMap s.bestHeight path
                ≤ env.maxReorgDepth
            · exact Or.inl hdepth
            · right
              by_contra hfalse
              exact hdeep ⟨by omega, by simpa using hfalse⟩
          cases hact : activatePath p env (s.cacheBlock c env blk) path
              ((s.cacheBlock c env blk).validatedPrefixLength c p env skip path).utxo
              ((s.cacheBlock c env blk).validatedPrefixLength c p env skip path).tipBits with
          | mk ok s' =>
              cases ok with
              | false => exact .failed hcheck hcand hvalid hbeats hallowed hact
              | true => exact .switched hcheck hcand hvalid hbeats hallowed hact
      · rw [Bool.not_eq_true] at hcp
        rw [hcp]
        simp only [Bool.not_false, if_true]
        refine .refused hcheck hcand hvalid hbeats ?_ (Or.inl rfl)
        rintro ⟨h, -⟩
        exact absurd (hcp.symm.trans h) (by decide)
    · rw [if_neg (fun h => hbeats (htip ▸ (hcoh.beatsTip_iff _).mp h))]
      exact .side hcheck hcand hvalid (Nat.le_of_not_lt hbeats)
  · have hlen : ((s.cacheBlock c env blk).validatedPrefixLength c p env skip path).length
        ≠ path.length := hvalid
    rw [if_pos hlen]
    exact .invalid hcheck hcand hvalid

/-- From a coherent state, a pass ends in one of the listed ways. -/
theorem acceptOne_outcome (hH : CollisionFree c H) (hs : s.Coherent c p H) (hb : blk.header ∈ H) :
    Outcome c p env skip s blk (s.acceptOne c p env skip blk).1
      (s.acceptOne c p env skip blk).2 := by
  have hself : (s.cacheBlock c env blk).index.lookup (blk.header.powHash c) = some blk.header :=
    cacheBlock_lookup_self hH hs.index hb
  have hwork₁ : (s.cacheBlock c env blk).chainWork = s.chainWork := rfl
  rw [acceptOne]
  cases hcheck : s.statelessCheck c p env skip blk with
  | some v => exact .rejected hcheck (statelessCheck_not_accepted hcheck)
  | none =>
      simp only [hwork₁]
      cases hw : s.chainWork.lookup (blk.header.powHash c) with
      | some w =>
          rw [if_pos (by rfl)]
          exact .processed hcheck hw
      | none =>
          rw [if_neg (by simp)]
          by_cases hprev : blk.header.prevBlockHash = 0
          · rw [if_pos hprev]
            have hpath : (s.cacheBlock c env blk).PathTo (blk.header.powHash c)
                [blk.header.powHash c] := .root (linkOf_root_iff.mpr ⟨_, hself, hprev⟩)
            refine connect_outcome hH hs hb hcheck ⟨hpath, hw, fun j hj hne => ?_⟩ rfl ?_
            · exact absurd (List.mem_singleton.mp hj) hne
            · rw [pathWork, List.map_singleton, List.sum_singleton, headerWork_of_lookup hself]
          · rw [if_neg hprev]
            cases hlink : s.linkIndex.lookup blk.header.prevBlockHash with
            | none =>
                have hparent : s.parentId blk = 0 := by
                  rw [parentId, if_neg hprev, hlink]; rfl
                rw [hparent, if_pos rfl]
                refine .orphan hcheck hw hprev fun parent h => ?_
                rw [hlink] at h
                cases h
            | some parent =>
                have hparent : s.parentId blk = parent := by
                  rw [parentId, if_neg hprev, hlink]; rfl
                -- a known id is not zero, for its link would be
                have hne : parent ≠ 0 := by
                  rintro rfl
                  obtain ⟨hdr, hid, -⟩ := hs.index.link.mp hlink
                  refine hH.hash_ne_zero hdr (hs.index.mem hid) ?_
                  rw [BlockHeader.hash_eq_first, hs.index.id_eq hid, Hash512.first_zero]
                rw [hparent, if_neg hne]
                cases hpw : s.chainWork.lookup parent with
                | none =>
                    refine .orphan hcheck hw hprev fun q h => ?_
                    rw [hlink] at h
                    cases h
                    exact hpw
                | some parentWork =>
                    obtain ⟨l, hl, rfl, hbh⟩ := hs.work hpw
                    have hbh₁ : (s.cacheBlock c env blk).blockHeight.lookup parent
                        = some (l.length - 1) := hbh
                    simp only [hbh₁]
                    have hl₁ : (s.cacheBlock c env blk).PathTo parent l :=
                      cacheBlock_pathTo hH hs.index hb hl
                    have hlink₁ : (s.cacheBlock c env blk).linkIndex.lookup
                        blk.header.prevBlockHash = some parent :=
                      cacheBlock_linkIndex_mono hH hs.index hb hlink
                    have hpath : (s.cacheBlock c env blk).PathTo (blk.header.powHash c)
                        (l ++ [blk.header.powHash c]) :=
                      .child (linkOf_parent_iff.mpr ⟨_, hself, hprev, hlink₁⟩) hl₁
                    refine connect_outcome hH hs hb hcheck ⟨hpath, hw, fun j hj hjne => ?_⟩ ?_ ?_
                    · rcases List.mem_append.mp hj with hj | hj
                      · exact hs.ancestorWork hpw hl hj
                      · exact absurd (List.mem_singleton.mp hj) hjne
                    · have := Forest.PathTo.length_pos hl
                      rw [List.length_append, List.length_singleton]
                      omega
                    · rw [pathWork_append, cacheBlock_pathWork hH hs.index hb hl]
                      simp [pathWork, headerWork_of_lookup hself]

end Blockchain

end Cryptex
