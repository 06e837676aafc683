import Cryptex.Purge

/-!
# Rules for `accept_block`

Every way in which a pass can end leaves the state coherent. What all passes
of a call preserve, the call preserves (`acceptBlock_rule`); and with a
round of fuel for every known header the call returns
(`acceptBlock_total`), since orphans wait for orphans along a path.
-/

namespace Cryptex

open Forest

namespace Blockchain

variable {c : Crypto} {p : ChainParams} {env : Env} {skip : Bool} {H : Set BlockHeader}
  {s s' : Blockchain} {blk : Block}

/-! ## Passes preserve coherence -/

theorem cacheBlock_pool_self (s : Blockchain) (blk : Block) :
    ∃ b, (s.cacheBlock c env blk).blockPool.lookup (blk.header.powHash c) = some b := by
  rw [cacheBlock]
  cases hp : s.blockPool.lookup (blk.header.powHash c) with
  | none => exact ⟨blk, by simp⟩
  | some b => exact ⟨b, by simp [hp]⟩

theorem Coherent.rememberOrphan (hs : s.Coherent c p H) (hprev : blk.header.prevBlockHash ≠ 0)
    (hself : s.index.lookup (blk.header.powHash c) = some blk.header) :
    (s.rememberOrphan c blk).Coherent c p H := by
  refine
    { index := hs.index.congr rfl rfl rfl
      stored := hs.stored
      active := hs.active
      best := hs.best
      tipBits := hs.tipBits
      work := hs.work
      activeWork := hs.activeWork
      ancestorWork := hs.ancestorWork
      activeHeight := hs.activeHeight
      heightIndex := hs.heightIndex
      children := ?_
      checkpoint := hs.checkpoint }
  intro link id hid
  simp only [Blockchain.rememberOrphan, FinMap.lookup_insert_ite] at hid
  split at hid
  · next heq =>
      subst heq
      rcases List.mem_append.mp hid with hold | hnew
      · exact hs.children hold
      · rw [List.mem_singleton.mp hnew]
        exact ⟨blk.header, hself, rfl, hprev⟩
  · exact hs.children hid

/-- A candidate that is kept aside has the work and height of its path. -/
theorem Coherent.keepAside (hs : s.Coherent c p H) {path : List Hash512}
    (hcand : Candidate c s blk path) :
    (s.keepAside (blk.header.powHash c) (path.length - 1) (s.pathWork p path)).Coherent c p H := by
  refine
    { index := hs.index.congr rfl rfl rfl
      stored := hs.stored
      active := hs.active
      best := hs.best
      tipBits := hs.tipBits
      work := ?_
      activeWork := ?_
      ancestorWork := ?_
      activeHeight := hs.activeHeight
      heightIndex := ?_
      children := hs.children
      checkpoint := hs.checkpoint }
  · intro id w hw
    simp only [Blockchain.keepAside, FinMap.lookup_insert_ite] at hw ⊢
    split at hw
    · next heq =>
        subst heq
        cases hw
        exact ⟨path, hcand.linked, rfl, by rw [if_pos rfl]⟩
    · next hne =>
        obtain ⟨l, hl, hwl, hbh⟩ := hs.work hw
        exact ⟨l, hl, hwl, by rw [if_neg hne, hbh]⟩
  · intro id hid
    simp only [Blockchain.keepAside, FinMap.lookup_insert_ite]
    split
    · exact ⟨_, rfl⟩
    · exact hs.activeWork hid
  · intro id w l j hw hl hj
    simp only [Blockchain.keepAside, FinMap.lookup_insert_ite] at hw ⊢
    split
    · exact ⟨_, rfl⟩
    · next hjne =>
        split at hw
        · next heq =>
            subst heq
            rw [Forest.PathTo.unique hl hcand.linked] at hj
            exact hcand.parents j hj hjne
        · exact hs.ancestorWork hw hl hj
  · intro id h hh
    obtain ⟨l, w, hl, hlen, hw⟩ := hs.heightIndex hh
    refine ⟨l, ?_⟩
    simp only [Blockchain.keepAside, FinMap.lookup_insert_ite]
    split
    · exact ⟨_, hl, hlen, rfl⟩
    · exact ⟨w, hl, hlen, hw⟩

theorem Coherent.heightIndex_none (hs : s.Coherent c p H) {id : Hash512}
    (h : s.chainWork.lookup id = none) : s.heightIndex.lookup id = none := by
  cases hh : s.heightIndex.lookup id with
  | none => rfl
  | some k =>
      obtain ⟨l, w, -, -, hw⟩ := hs.heightIndex hh
      rw [h] at hw
      cases hw

theorem Coherent.purge (env : Env) (hH : CollisionFree c H) (hs : s.Coherent c p H) {path : List Hash512}
    (hcand : Candidate c s blk path) :
    PurgedCandidate c p H (blk.header.powHash c) s
      (purgeCachedSubtree p env c s (blk.header.powHash c)) := by
  obtain ⟨hdr, hhdr⟩ := PathTo.lookup hcand.linked (Forest.PathTo.mem_self hcand.linked)
  exact purgeCachedSubtree_spec hH hs hhdr (hs.heightIndex_none hcand.fresh)

/-- Purged ids lie behind the root: their paths run through it. -/
theorem purgeList_behind (hH : CollisionFree c H) (hs : s.Coherent c p H) {root : Hash512} :
    ∀ k ∈ s.purgeList c root, ∀ l, s.PathTo k l → root ∈ l := by
  refine Worklist.explore_invariant (P := fun k => ∀ l, s.PathTo k l → root ∈ l) ?_ ?_ ?_
  · intro k hk m hm l hl
    rw [kidsOf] at hm
    cases hhdr : s.index.lookup k with
    | none => rw [hhdr] at hm; cases hm
    | some khdr =>
        rw [hhdr] at hm
        obtain ⟨mhdr, hmhdr, hprev, hne⟩ := hs.children hm
        cases hl with
        | root hroot =>
            obtain ⟨hdr, hhdr', hzero⟩ := linkOf_root_iff.mp hroot
            rw [hmhdr] at hhdr'
            cases hhdr'
            exact absurd (hprev ▸ hzero) hne
        | @child _ j l' hup hj =>
            obtain ⟨hdr, phdr, hhdr', -, hphdr, hhash⟩ := hs.index.up_parent_iff.mp hup
            rw [hmhdr] at hhdr'
            cases hhdr'
            have heq := hH.hash_inj (hs.index.mem hphdr) (hs.index.mem hhdr) (hhash.trans hprev)
            have hjk : j = k := by rw [← hs.index.id_eq hphdr, ← hs.index.id_eq hhdr, heq]
            subst hjk
            exact List.mem_append_left _ (hk l' hj)
  · intro k hk l hl
    rw [List.mem_singleton.mp hk] at hl
    exact Forest.PathTo.mem_self hl
  · intro k hk
    cases hk

/-- An id with work is not purged, and neither is its path. -/
theorem purge_keeps_credited (hH : CollisionFree c H) (hs : s.Coherent c p H) {root : Hash512}
    (hfresh : s.chainWork.lookup root = none) {id : Hash512} {w : Nat}
    (hw : s.chainWork.lookup id = some w) {l : List Hash512} (hl : s.PathTo id l) :
    ∀ j ∈ l, j ∉ s.purgeList c root := by
  intro j hj hmem
  obtain ⟨w', hw'⟩ := hs.ancestorWork hw hl hj
  obtain ⟨l', hl'⟩ := Forest.PathTo.connected_of_mem hl hj
  obtain ⟨w'', hw''⟩ := hs.ancestorWork hw' hl' (purgeList_behind hH hs j hmem l' hl')
  rw [hfresh] at hw''
  cases hw''

/-- What a switch to a candidate comes to. -/
theorem Coherent.switch (hH : CollisionFree c H) (hs : s.Coherent c p H) {path : List Hash512}
    (hcand : Candidate c s blk path)
    (hpool : ∃ b, s.blockPool.lookup (blk.header.powHash c) = some b)
    (hvalid : s.PathValid c p env skip path)
    (hcp : s.candidateMatchesLocalCheckpoint path = true)
    (h : activatePath p env s path (s.validatedPrefixLength c p env skip path).utxo
      (s.validatedPrefixLength c p env skip path).tipBits = (true, s')) :
    s'.Coherent c p H ∧ ∃ blocks store files cp,
      s.BlocksOf path blocks ∧ s.HeadersOf path blocks ∧
      Accepts c p env.now skip [] ∅ blocks (s.validatedPrefixLength c p env skip path).utxo ∧
      writePath env.canWrite s.store 0 (path.zip blocks) = (store, true) ∧
      s' = { s.adoptPath p path blocks store (s.validatedPrefixLength c p env skip path).utxo
          (s.validatedPrefixLength c p env skip path).tipBits with
        files := files, localCheckpoint := cp } ∧
      (s.manualCheckpointPinned = true → cp = s.localCheckpoint) ∧
      (s.manualCheckpointPinned = false →
        ∀ hash, path[checkpointHeight (path.length - 1)]? = some hash →
          cp = some (checkpointHeight (path.length - 1), hash)) := by
  obtain ⟨b, hb⟩ := hpool
  obtain ⟨blocks, hblocks, hheaders, hacc, hbits⟩ :=
    hs.blocks_of_valid hH hcand.linked hb hvalid
  obtain ⟨blocks', store, files, cp, hm, hw, rfl, hpin, hfree⟩ := activatePath_true h
  rw [hblocks.mapM_eq] at hm
  cases hm
  refine ⟨hs.adopt hcand.linked hheaders ?_ hw ?_, blocks, store, files, cp, hblocks, hheaders,
    hacc, hw, rfl, hpin, hfree⟩
  · intro hdr hhdr
    rw [hs.index.pool hb] at hhdr
    cases hhdr
    exact hbits
  · intro k hash hk
    cases hpinned : s.manualCheckpointPinned with
    | true =>
        rw [hpin hpinned] at hk
        rw [candidateMatchesLocalCheckpoint, hk] at hcp
        simpa using hcp
    | false =>
        have hpos := Forest.PathTo.length_pos hcand.linked
        have hle := checkpointHeight_le (path.length - 1)
        have hget := List.getElem?_eq_getElem
          (show checkpointHeight (path.length - 1) < path.length by omega)
        rw [hfree hpinned _ hget] at hk
        cases hk
        exact hget

/-- A failed activation changes block files only. -/
theorem Coherent.failed (hs : s.Coherent c p H) {path : List Hash512}
    (hpath : s.PathTo (blk.header.powHash c) path) {utxo : UTXOSet} {bits : UInt32}
    (h : activatePath p env s path utxo bits = (false, s')) :
    s'.Coherent c p H ∧ ∃ store, s' = { s with store := store } := by
  rcases activatePath_false h with rfl | ⟨blocks, store, hm, hw, rfl⟩
  · exact ⟨hs, s'.store, rfl⟩
  · refine ⟨?_, store, rfl⟩
    have hmem : ∀ e ∈ path.zip blocks, e.2.header ∈ H := by
      rintro ⟨j, b⟩ he
      obtain ⟨i, hi⟩ := List.mem_iff_getElem?.mp he
      obtain ⟨hj, hb⟩ := List.getElem?_zip_eq_some.mp hi
      obtain ⟨hdr, hhdr⟩ := PathTo.lookup hpath (List.mem_of_getElem? hj)
      have hfound := (blocksOf_of_mapM hm).getElem hj hb
      rw [getBlockByHash_id hhdr] at hfound
      exact hs.getBlockById_mem hfound
    have hwritten := writePath_stored (P := fun b => b.header ∈ H) hmem hw hs.stored.1 hs.stored.2
    exact
      { index := hs.index.congr rfl rfl rfl
        stored := hwritten
        active := hs.active
        best := hs.best
        tipBits := hs.tipBits
        work := hs.work
        activeWork := hs.activeWork
        ancestorWork := hs.ancestorWork
        activeHeight := hs.activeHeight
        heightIndex := hs.heightIndex
        children := hs.children
        checkpoint := hs.checkpoint }

theorem Outcome.coherent (hH : CollisionFree c H) (hs : s.Coherent c p H) (hb : blk.header ∈ H)
    {v : Verdict} (h : Outcome c p env skip s blk v s') : s'.Coherent c p H := by
  have hcoh : (s.cacheBlock c env blk).Coherent c p H := hs.cacheBlock hH hb
  cases h with
  | rejected _ _ => exact hs
  | processed _ _ => exact hcoh
  | orphan _ _ hprev _ => exact hcoh.rememberOrphan hprev (cacheBlock_lookup_self hH hs.index hb)
  | invalid _ hcand _ => exact (hcoh.purge env hH hcand).coherent hcoh
  | side _ hcand _ _ => exact hcoh.keepAside hcand
  | refused _ _ _ _ _ _ => exact hcoh
  | failed _ hcand _ _ _ hact => exact (hcoh.failed hcand.linked hact).1
  | switched _ hcand hvalid _ hallowed hact =>
      exact (hcoh.switch hH hcand (cacheBlock_pool_self s blk) hvalid hallowed.1 hact).1

/-! ## The passes of a call -/

section

variable (c : Crypto) (p : ChainParams) (env : Env) (skip : Bool)

/-- The passes over the orphans of a list, given those of one block. -/
def orphanPasses (passes : Blockchain → Block → List (Blockchain × Block))
    (accept : Blockchain → Block → Option (Bool × Blockchain)) :
    Blockchain → List Hash512 → List (Blockchain × Block)
  | _, [] => []
  | s, k :: kids =>
      match s.blockPool.lookup k with
      | none => orphanPasses passes accept s kids
      | some blk =>
          passes s blk ++
            match accept s blk with
            | none => []
            | some (_, s') => orphanPasses passes accept s' kids

/-- The passes that a call of `accept_block` makes: each block it looks at,
with the state before. -/
def passes : Nat → Blockchain → Block → List (Blockchain × Block)
  | 0, _, _ => []
  | fuel + 1, s, blk =>
      let (verdict, s₁) := s.acceptOne c p env skip blk
      (s, blk) ::
        if verdict.connects then
          orphanPasses (passes fuel) (acceptBlock c p env skip fuel) s₁
            ((s₁.children.lookup (blk.header.hash c)).getD [])
        else []

end

/-! ## The rule for a call -/

section

variable {I : Blockchain → Prop} {G : Block → Prop} {Q : Blockchain → Block → Prop}

theorem orphanLoop_rule {accept : Blockchain → Block → Option (Bool × Blockchain)}
    {steps : Blockchain → Block → List (Blockchain × Block)}
    (haccept : ∀ s blk r s', I s → G blk → (∀ x ∈ steps s blk, Q x.1 x.2) →
      accept s blk = some (r, s') → I s')
    (hpool : ∀ s id blk, I s → s.blockPool.lookup id = some blk → G blk) :
    ∀ (kids : List Hash512) {s s' : Blockchain}, I s →
      (∀ x ∈ orphanPasses steps accept s kids, Q x.1 x.2) →
      orphanLoop accept s kids = some s' → I s' := by
  intro kids
  induction kids with
  | nil =>
      intro s s' hs _ h
      cases h
      exact hs
  | cons k kids ih =>
      intro s s' hs hok h
      rw [orphanLoop] at h
      rw [orphanPasses] at hok
      cases hk : s.blockPool.lookup k with
      | none =>
          rw [hk] at h hok
          exact ih hs hok h
      | some blk =>
          rw [hk] at h hok
          simp only at h hok
          cases hacc : accept s blk with
          | none => rw [hacc] at h; cases h
          | some res =>
              obtain ⟨r, t⟩ := res
              rw [hacc] at h hok
              simp only at h hok
              have ht : I t := haccept s blk r t hs (hpool s k blk hs hk)
                (fun x hx => hok x (List.mem_append_left _ hx)) hacc
              exact ih ht (fun x hx => hok x (List.mem_append_right _ hx)) h

/-- What every pass of a call preserves, the call preserves. -/
theorem acceptBlock_rule
    (hstep : ∀ s blk, I s → G blk → Q s blk → I (s.acceptOne c p env skip blk).2)
    (hpool : ∀ s id blk, I s → s.blockPool.lookup id = some blk → G blk) :
    ∀ (fuel : Nat) (s : Blockchain) (blk : Block) (r : Bool) (s' : Blockchain), I s → G blk →
      (∀ x ∈ passes c p env skip fuel s blk, Q x.1 x.2) →
      acceptBlock c p env skip fuel s blk = some (r, s') → I s' := by
  intro fuel
  induction fuel with
  | zero => intro s blk r s' _ _ _ h; cases h
  | succ fuel ih =>
      intro s blk r s' hs hb hok h
      rw [acceptBlock] at h
      rw [passes] at hok
      have hone : I (s.acceptOne c p env skip blk).2 := hstep s blk hs hb (hok (s, blk) (by simp))
      generalize hres : s.acceptOne c p env skip blk = res at h hok hone
      obtain ⟨v, s₁⟩ := res
      simp only at h hok hone
      split at h
      · next hv =>
          rw [if_pos hv] at hok
          obtain ⟨s₂, hloop, heq⟩ := Option.map_eq_some_iff.mp h
          cases heq
          exact orphanLoop_rule ih hpool _ hone (fun x hx => hok x (List.mem_cons_of_mem _ hx)) hloop
      · cases h
        exact hone

end

/-! ## The work of the tip -/

/-- Only a switch changes the active chain, and it raises the work of the tip. -/
theorem Outcome.tipWork (hH : CollisionFree c H) (hs : s.Coherent c p H) (hb : blk.header ∈ H)
    {v : Verdict} (h : Outcome c p env skip s blk v s') :
    (v = .switched ∧ s.pathWork p s.heightMap < s'.pathWork p s'.heightMap) ∨
      (v ≠ .switched ∧ s'.heightMap = s.heightMap ∧
        s'.pathWork p s'.heightMap = s.pathWork p s.heightMap) := by
  have hcoh : (s.cacheBlock c env blk).Coherent c p H := hs.cacheBlock hH hb
  have hcached : (s.cacheBlock c env blk).pathWork p s.heightMap = s.pathWork p s.heightMap :=
    cacheBlock_pathWork hH hs.index hb hs.active
  cases h with
  | rejected _ hacc =>
      refine Or.inr ⟨?_, rfl, rfl⟩
      rintro rfl
      cases hacc
  | processed _ _ => exact Or.inr ⟨by simp, rfl, hcached⟩
  | orphan _ _ _ _ => exact Or.inr ⟨by simp, rfl, hcached⟩
  | side _ _ _ _ => exact Or.inr ⟨by simp, rfl, hcached⟩
  | refused _ _ _ _ _ hcase =>
      refine Or.inr ⟨?_, rfl, hcached⟩
      rcases hcase with rfl | rfl <;> simp
  | failed _ hcand _ _ _ hact =>
      obtain ⟨-, store, rfl⟩ := hcoh.failed hcand.linked hact
      exact Or.inr ⟨by simp, rfl, hcached⟩
  | invalid _ hcand _ =>
      have hpurged := hcoh.purge env hH hcand
      obtain ⟨mid, rebuilt, files, hmid, hrebuilt, heq⟩ := hpurged.steps
      have hmap : rebuilt.heightMap = s.heightMap := by
        rw [hrebuilt.only]
        exact hmid.heightMap
      have hactive : mid.PathTo s.tipHash s.heightMap := by
        refine hmid.pathTo hcoh.index hcoh.active fun j hj _ => ?_
        obtain ⟨i, hi⟩ := List.mem_iff_getElem?.mp hj
        exact ⟨i, hcoh.activeHeight hi⟩
      refine Or.inr ⟨by simp, by rw [heq]; exact hmap, ?_⟩
      rw [heq]
      show rebuilt.pathWork p rebuilt.heightMap = _
      rw [hmap, ← hcached, ← hmid.pathWork hactive]
      exact pathWork_congr fun _ _ => by rw [hrebuilt.only]
  | switched _ hcand hvalid hbeats hallowed hact =>
      obtain ⟨-, blocks, store, files, cp, -, -, -, -, rfl, -⟩ :=
        hcoh.switch hH hcand (cacheBlock_pool_self s blk) hvalid hallowed.1 hact
      exact Or.inl ⟨rfl, hbeats⟩

/-- Only a switch takes work from an id. -/
theorem Outcome.credited (hH : CollisionFree c H) (hs : s.Coherent c p H) (hb : blk.header ∈ H)
    {v : Verdict} (h : Outcome c p env skip s blk v s') (hv : v ≠ .switched) {id : Hash512} {w : Nat}
    (hw : s.chainWork.lookup id = some w) : ∃ w', s'.chainWork.lookup id = some w' := by
  have hcoh : (s.cacheBlock c env blk).Coherent c p H := hs.cacheBlock hH hb
  cases h with
  | rejected _ _ => exact ⟨w, hw⟩
  | processed _ _ => exact ⟨w, hw⟩
  | orphan _ _ _ _ => exact ⟨w, hw⟩
  | refused _ _ _ _ _ _ => exact ⟨w, hw⟩
  | failed _ hcand _ _ _ hact =>
      obtain ⟨-, store, rfl⟩ := hcoh.failed hcand.linked hact
      exact ⟨w, hw⟩
  | side _ _ _ _ =>
      rw [Blockchain.keepAside]
      simp only [FinMap.lookup_insert_ite]
      split
      · exact ⟨_, rfl⟩
      · exact ⟨w, hw⟩
  | invalid _ hcand _ =>
      obtain ⟨mid, rebuilt, files, hmid, hrebuilt, heq⟩ := (hcoh.purge env hH hcand).steps
      rw [heq]
      have hw' : (s.cacheBlock c env blk).chainWork.lookup id = some w := hw
      obtain ⟨l, hl, -, -⟩ := hcoh.work hw'
      have hkept : mid.PathTo id l := hmid.pathTo hcoh.index hl fun j hj hmem =>
        absurd hmem (purge_keeps_credited hH hcoh hcand.fresh hw' hl j hj)
      exact ⟨_, hrebuilt.chainWork.mpr ⟨l, hkept, rfl⟩⟩
  | switched _ _ _ _ _ _ => exact absurd rfl hv

/-! ## Calls return -/

/-- A pass adds no header but that of its block. -/
theorem Outcome.index_sub (hH : CollisionFree c H) (hs : s.Coherent c p H) (hb : blk.header ∈ H)
    {v : Verdict} (h : Outcome c p env skip s blk v s') {j : Hash512} {hdr : BlockHeader}
    (hj : s'.index.lookup j = some hdr) :
    (s.cacheBlock c env blk).index.lookup j = some hdr := by
  have hcoh : (s.cacheBlock c env blk).Coherent c p H := hs.cacheBlock hH hb
  cases h with
  | rejected _ _ => exact cacheBlock_lookup_mono hH hs.index hb hj
  | processed _ _ => exact hj
  | orphan _ _ _ _ => exact hj
  | invalid _ hcand _ =>
      obtain ⟨mid, rebuilt, files, hmid, hrebuilt, heq⟩ := (hcoh.purge env hH hcand).steps
      rw [heq] at hj
      have hj' : rebuilt.index.lookup j = some hdr := hj
      rw [hrebuilt.only] at hj'
      exact (hmid.index.mp hj').1
  | side _ _ _ _ => exact hj
  | refused _ _ _ _ _ _ => exact hj
  | failed _ hcand _ _ _ hact =>
      obtain ⟨-, store, rfl⟩ := hcoh.failed hcand.linked hact
      exact hj
  | switched _ hcand hvalid _ hallowed hact =>
      obtain ⟨-, blocks, store, files, cp, -, -, -, -, rfl, -⟩ :=
        hcoh.switch hH hcand (cacheBlock_pool_self s blk) hvalid hallowed.1 hact
      exact hj

/-- A verdict that connects comes with the path of the block. -/
theorem Outcome.path_of_connects {v : Verdict} (h : Outcome c p env skip s blk v s')
    (hv : v.connects = true) :
    ∃ path, (s.cacheBlock c env blk).PathTo (blk.header.powHash c) path := by
  cases h with
  | rejected _ hacc =>
      rw [Verdict.accepted_of_connects hv] at hacc
      cases hacc
  | processed _ _ => cases hv
  | orphan _ _ _ _ => cases hv
  | invalid _ _ _ => cases hv
  | side _ hcand _ _ => exact ⟨_, hcand.linked⟩
  | refused _ _ _ _ _ hcase => rcases hcase with rfl | rfl <;> cases hv
  | failed _ _ _ _ _ _ => cases hv
  | switched _ hcand _ _ _ _ => exact ⟨_, hcand.linked⟩

theorem card_le_of_lookup {m m' : FinMap Hash512 BlockHeader}
    (h : ∀ j hdr, m'.lookup j = some hdr → m.lookup j = some hdr) :
    m'.keys.card ≤ m.keys.card := by
  refine Finset.card_le_card fun j hj => ?_
  obtain ⟨hdr, hhdr⟩ := Finmap.mem_iff.mp (Finmap.mem_keys.mp hj)
  exact Finmap.mem_keys.mpr (Finmap.mem_of_lookup_eq_some (h j hdr hhdr))

/-- The state of a call and the number of headers it may know. -/
structure Bounded (c : Crypto) (p : ChainParams) (H : Set BlockHeader) (n : Nat)
    (s : Blockchain) : Prop where
  coherent : s.Coherent c p H
  card : s.index.keys.card ≤ n

/-- The ids of a waiting list name headers of `H` below a given link. -/
def WaitFor (c : Crypto) (H : Set BlockHeader) (link : Hash256) (kids : List Hash512) : Prop :=
  ∀ k ∈ kids, ∃ hdr ∈ H, hdr.powHash c = k ∧ hdr.prevBlockHash = link

theorem orphanLoop_total {n : Nat} {link : Hash256}
    {accept : Blockchain → Block → Option (Bool × Blockchain)}
    (haccept : ∀ s k blk, Bounded c p H n s → s.blockPool.lookup k = some blk →
      blk.header.prevBlockHash = link → ∃ r s', accept s blk = some (r, s') ∧ Bounded c p H n s')
    (hH : CollisionFree c H) :
    ∀ (kids : List Hash512) {s : Blockchain}, Bounded c p H n s → WaitFor c H link kids →
      ∃ s', orphanLoop accept s kids = some s' ∧ Bounded c p H n s' := by
  intro kids
  induction kids with
  | nil => intro s hs _; exact ⟨s, rfl, hs⟩
  | cons k kids ih =>
      intro s hs hwait
      have hrest : WaitFor c H link kids := fun j hj => hwait j (List.mem_cons_of_mem _ hj)
      rw [orphanLoop]
      cases hk : s.blockPool.lookup k with
      | none => exact ih hs hrest
      | some blk =>
          obtain ⟨hdr, hhdrH, hid, hprev⟩ := hwait k (by simp)
          have hidx := hs.coherent.index.pool hk
          have heq : blk.header = hdr := hH.eq_of_powHash (hs.coherent.index.mem hidx) hhdrH
            ((hs.coherent.index.id_eq hidx).trans hid.symm)
          obtain ⟨r, t, hacc, ht⟩ := haccept s k blk hs hk (heq ▸ hprev)
          simp only [hacc]
          exact ih ht hrest

/-- Orphans wait for orphans along a path, so that the depth of a call and
the length of the path so far add up to at most the number of headers. -/
theorem acceptBlock_returns (hH : CollisionFree c H) {n : Nat} :
    ∀ (fuel depth : Nat) {s : Blockchain} {blk : Block}, s.Coherent c p H → blk.header ∈ H →
      (s.cacheBlock c env blk).index.keys.card ≤ n → s.index.keys.card ≤ n →
      n + 2 ≤ fuel + depth → 1 ≤ fuel →
      (∀ path, (s.cacheBlock c env blk).PathTo (blk.header.powHash c) path →
        depth ≤ path.length) →
      ∃ r s', acceptBlock c p env skip fuel s blk = some (r, s') ∧ Bounded c p H n s' := by
  intro fuel
  induction fuel with
  | zero => intro depth s blk _ _ _ _ _ hfuel _; omega
  | succ fuel ih =>
      intro depth s blk hs hb hcard _ hsum _ hdepth
      have hout : Outcome c p env skip s blk (s.acceptOne c p env skip blk).1
          (s.acceptOne c p env skip blk).2 := acceptOne_outcome hH hs hb
      have hcoh := hout.coherent hH hs hb
      have hcard₁ : (s.acceptOne c p env skip blk).2.index.keys.card ≤ n :=
        Nat.le_trans (card_le_of_lookup fun j hdr hj => hout.index_sub hH hs hb hj) hcard
      have hcache : (s.cacheBlock c env blk).Coherent c p H := hs.cacheBlock hH hb
      rw [acceptBlock]
      generalize s.acceptOne c p env skip blk = res at hout hcoh hcard₁
      obtain ⟨v, s₁⟩ := res
      simp only at hout hcoh hcard₁ ⊢
      cases hv : v.connects with
      | false => exact ⟨v.accepted, s₁, by simp, hcoh, hcard₁⟩
      | true =>
          obtain ⟨path, hpath⟩ := hout.path_of_connects hv
          have hlen := hdepth path hpath
          have hle := PathTo.length_le_card hpath
          have hself : (s.cacheBlock c env blk).index.lookup (blk.header.powHash c)
              = some blk.header := cacheBlock_lookup_self hH hs.index hb
          -- the orphans of this block sit one below it on their paths
          have haccept : ∀ t k kb, Bounded c p H n t → t.blockPool.lookup k = some kb →
              kb.header.prevBlockHash = blk.header.hash c →
              ∃ r t', acceptBlock c p env skip fuel t kb = some (r, t') ∧ Bounded c p H n t' := by
            intro t k kb ht hk hprev
            have hidx := ht.coherent.index.pool hk
            have hkb : kb.header ∈ H := ht.coherent.index.mem hidx
            have hknown : (t.cacheBlock c env kb).index = t.index := by
              rw [← ht.coherent.index.id_eq hidx] at hidx
              rw [cacheBlock]
              simp only [hidx, Option.isSome_some, if_true]
            have hcacheT : (t.cacheBlock c env kb).Coherent c p H := ht.coherent.cacheBlock hH hkb
            refine ih (depth + 1) ht.coherent hkb (by rw [hknown]; exact ht.card) ht.card
              (by omega) (by omega) ?_
            intro path' hpath'
            cases hpath' with
            | root hroot =>
                obtain ⟨hdr, hhdr, hzero⟩ := linkOf_root_iff.mp hroot
                rw [cacheBlock_lookup_self hH ht.coherent.index hkb] at hhdr
                cases hhdr
                rw [hprev] at hzero
                exact absurd hzero (hH.hash_ne_zero _ hb)
            | @child _ j l hup hj =>
                obtain ⟨hdr, phdr, hhdr, -, hphdr, hhash⟩ := hcacheT.index.up_parent_iff.mp hup
                rw [cacheBlock_lookup_self hH ht.coherent.index hkb] at hhdr
                cases hhdr
                have hpeq : phdr = blk.header :=
                  hH.hash_inj (hcacheT.index.mem hphdr) hb (hhash.trans hprev)
                have hjid : j = blk.header.powHash c := by
                  rw [← hcacheT.index.id_eq hphdr, hpeq]
                subst hjid
                rw [hcacheT.index.pathTo_unique hH hcache.index hj hpath]
                rw [List.length_append, List.length_singleton]
                omega
          have hwait : WaitFor c H (blk.header.hash c)
              ((s₁.children.lookup (blk.header.hash c)).getD []) := by
            intro k hk
            obtain ⟨hdr, hhdr, hprev, -⟩ := hcoh.children hk
            exact ⟨hdr, hcoh.index.mem hhdr, hcoh.index.id_eq hhdr, hprev⟩
          obtain ⟨s₂, hloop, hs₂⟩ := orphanLoop_total haccept hH _ ⟨hcoh, hcard₁⟩ hwait
          exact ⟨v.accepted, s₂, by simp [hloop], hs₂⟩

/-- With two rounds more than there are headers, a call returns. -/
theorem acceptBlock_total (hH : CollisionFree c H) (hs : s.Coherent c p H) (hb : blk.header ∈ H)
    {fuel : Nat} (hfuel : s.index.keys.card + 2 ≤ fuel) :
    ∃ r s', acceptBlock c p env skip fuel s blk = some (r, s') := by
  have hcard : (s.cacheBlock c env blk).index.keys.card ≤ s.index.keys.card + 1 := by
    rw [cacheBlock]
    simp only
    split
    · omega
    · exact FinMap.card_keys_insert_le _ _ _
  obtain ⟨r, s', h, -⟩ := acceptBlock_returns hH fuel 1 hs hb hcard
    (by omega) (by omega) (by omega) (fun path hpath => Forest.PathTo.length_pos hpath)
  exact ⟨r, s', h⟩

end Blockchain

end Cryptex
