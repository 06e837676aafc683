import Cryptex.HeaderTree

/-!
# What `rebuild_known_block_state` computes

`children_`, `chain_work_`, `block_height_` and `height_index_` are
recomputed from the header index. Afterwards a header has work and height
exactly when it is connected, and they are those of its path. The height
index holds the active heights and, besides, the height of every connected
header that is not a root.
-/

namespace Cryptex

open Forest

namespace Blockchain

variable {c : Crypto} {p : ChainParams} {env : Env} {H : Set BlockHeader}

/-! ## One entry -/

/-- What a step on an entry of the index can do. -/
theorem creditStep_some {s s' : Blockchain} {id : Hash512} {hdr : BlockHeader}
    (h : creditStep p s (id, hdr) = some s') :
    s.chainWork.lookup id = none ∧
    ((hdr.prevBlockHash = 0 ∧
        s' = { s with
          chainWork := s.chainWork.insert id (blockWork p hdr.bits)
          blockHeight := s.blockHeight.insert id 0 }) ∨
      (∃ parent work height, hdr.prevBlockHash ≠ 0 ∧
        s.linkIndex.lookup hdr.prevBlockHash = some parent ∧
        s.chainWork.lookup parent = some work ∧ s.blockHeight.lookup parent = some height ∧
        s' = { s with
          chainWork := s.chainWork.insert id (work + blockWork p hdr.bits)
          blockHeight := s.blockHeight.insert id (height + 1)
          heightIndex := s.heightIndex.insert id (height + 1) })) := by
  rw [creditStep] at h
  cases hw : s.chainWork.lookup id with
  | some w => simp only [hw, Option.isSome_some, if_true] at h; cases h
  | none =>
      refine ⟨rfl, ?_⟩
      simp only [hw, Option.isSome_none, Bool.false_eq_true, if_false] at h
      by_cases hprev : hdr.prevBlockHash = 0
      · left
        simp only [if_pos hprev, Option.some.injEq] at h
        exact ⟨hprev, h.symm⟩
      · right
        simp only [if_neg hprev] at h
        cases hl : s.linkIndex.lookup hdr.prevBlockHash with
        | none => rw [hl] at h; cases h
        | some parent =>
            rw [hl] at h
            cases hpw : s.chainWork.lookup parent with
            | none => simp only [hpw] at h; cases h
            | some work =>
                cases hph : s.blockHeight.lookup parent with
                | none => simp only [hpw, hph] at h; cases h
                | some height =>
                    simp only [hpw, hph, Option.some.injEq] at h
                    exact ⟨parent, work, height, hprev, rfl, hpw, hph, h.symm⟩

/-- A step that skips an entry finds its work there already, or its parent
without work or height. -/
theorem creditStep_none {s : Blockchain} {id : Hash512} {hdr : BlockHeader}
    (h : creditStep p s (id, hdr) = none) :
    (∃ w, s.chainWork.lookup id = some w) ∨
      (hdr.prevBlockHash ≠ 0 ∧ ∀ parent work height,
        s.linkIndex.lookup hdr.prevBlockHash = some parent →
        s.chainWork.lookup parent = some work → s.blockHeight.lookup parent = some height →
        False) := by
  rw [creditStep] at h
  cases hw : s.chainWork.lookup id with
  | some w => exact Or.inl ⟨w, rfl⟩
  | none =>
      right
      simp only [hw, Option.isSome_none, Bool.false_eq_true, if_false] at h
      by_cases hprev : hdr.prevBlockHash = 0
      · simp only [if_pos hprev] at h; cases h
      · refine ⟨hprev, ?_⟩
        intro parent work height hl hpw hph
        simp only [if_neg hprev, hl, hpw, hph] at h
        cases h

/-! ## The invariant of the passes -/

/-- What holds of the credit maps at any time during the passes, for the
state `s₀` in which they started. -/
structure Crediting (p : ChainParams) (s₀ s : Blockchain) : Prop where
  only : s = { s₀ with
    chainWork := s.chainWork
    blockHeight := s.blockHeight
    heightIndex := s.heightIndex }
  work : ∀ {id w}, s.chainWork.lookup id = some w → ∃ l, s₀.PathTo id l ∧
    w = s₀.pathWork p l ∧ s.blockHeight.lookup id = some (l.length - 1) ∧
    (1 < l.length → s.heightIndex.lookup id = some (l.length - 1))
  heightIndex : ∀ {id h}, s.heightIndex.lookup id = some h → s₀.heightMap[h]? = some id ∨
    ∃ l, s₀.PathTo id l ∧ 1 < l.length ∧ l.length = h + 1
  active : ∀ {i id}, s₀.heightMap[i]? = some id → s.heightIndex.lookup id = some i

theorem Crediting.linkIndex {s₀ s : Blockchain} (h : Crediting p s₀ s) :
    s.linkIndex = s₀.linkIndex := by rw [h.only]

/-- An id that gets work has a path, and the maps get its values. -/
theorem Crediting.insert {s₀ s : Blockchain} (h : Crediting p s₀ s)
    (hactive : ∀ {i id l}, s₀.heightMap[i]? = some id → s₀.PathTo id l → l.length = i + 1)
    {id : Hash512} {l : List Hash512} (hl : s₀.PathTo id l) (heightIndex : FinMap Hash512 Nat)
    (hheight : heightIndex = if 1 < l.length then s.heightIndex.insert id (l.length - 1)
      else s.heightIndex) :
    Crediting p s₀ { s with
      chainWork := s.chainWork.insert id (s₀.pathWork p l)
      blockHeight := s.blockHeight.insert id (l.length - 1)
      heightIndex := heightIndex } := by
  have hpos := Forest.PathTo.length_pos hl
  subst hheight
  constructor
  · rw [h.only]
  · intro j w hw
    simp only [FinMap.lookup_insert_ite] at hw ⊢
    by_cases hj : j = id
    · subst hj
      rw [if_pos rfl] at hw
      cases hw
      refine ⟨l, hl, rfl, by rw [if_pos rfl], fun hlt => ?_⟩
      rw [if_pos hlt, Finmap.lookup_insert]
    · rw [if_neg hj] at hw
      obtain ⟨l', hl', hwl, hbh, hhi⟩ := h.work hw
      refine ⟨l', hl', hwl, by rw [if_neg hj, hbh], fun hlt => ?_⟩
      split
      · rw [FinMap.lookup_insert_ite, if_neg hj, hhi hlt]
      · exact hhi hlt
  · intro j k hk
    split at hk
    · next hlt =>
      rw [FinMap.lookup_insert_ite] at hk
      by_cases hj : j = id
      · subst hj
        rw [if_pos rfl] at hk
        exact Or.inr ⟨l, hl, hlt, by have := Option.some.inj hk; omega⟩
      · rw [if_neg hj] at hk
        exact h.heightIndex hk
    · exact h.heightIndex hk
  · intro i j hij
    split
    · rw [FinMap.lookup_insert_ite]
      by_cases hj : j = id
      · subst hj
        have := hactive hij hl
        rw [if_pos rfl, this]
        rfl
      · rw [if_neg hj]
        exact h.active hij
    · exact h.active hij

theorem Crediting.step {s₀ s s' : Blockchain} (h : Crediting p s₀ s)
    (hactive : ∀ {i id l}, s₀.heightMap[i]? = some id → s₀.PathTo id l → l.length = i + 1)
    {id : Hash512} {hdr : BlockHeader} (hid : s₀.index.lookup id = some hdr)
    (hstep : creditStep p s (id, hdr) = some s') : Crediting p s₀ s' := by
  obtain ⟨-, hroot | ⟨parent, work, height, hprev, hlink, hwork, hheight, rfl⟩⟩ :=
    creditStep_some hstep
  · obtain ⟨hprev, rfl⟩ := hroot
    have hl : s₀.PathTo id [id] := .root (linkOf_root_iff.mpr ⟨hdr, hid, hprev⟩)
    have hw : s₀.pathWork p [id] = blockWork p hdr.bits := by
      rw [pathWork, List.map_singleton, List.sum_singleton, headerWork_of_lookup hid]
    have hins := h.insert hactive hl s.heightIndex (by simp)
    rw [hw] at hins
    exact hins
  · obtain ⟨l, hl, rfl, hbh, -⟩ := h.work hwork
    rw [hbh] at hheight
    cases hheight
    rw [h.linkIndex] at hlink
    have hpos := Forest.PathTo.length_pos hl
    have hl' : s₀.PathTo id (l ++ [id]) :=
      .child (linkOf_parent_iff.mpr ⟨hdr, hid, hprev, hlink⟩) hl
    have hlen : (l ++ [id]).length = l.length + 1 := by simp
    have hw : s₀.pathWork p (l ++ [id]) = s₀.pathWork p l + blockWork p hdr.bits := by
      rw [pathWork_append, ← headerWork_of_lookup (p := p) hid]
      simp [pathWork]
    have hlt : 1 < (l ++ [id]).length := by omega
    have hins := h.insert hactive hl' (s.heightIndex.insert id (l.length - 1 + 1)) (by
        rw [if_pos hlt, hlen]
        congr 1
        omega)
    rw [hw, hlen, show l.length + 1 - 1 = l.length - 1 + 1 by omega] at hins
    exact hins

/-! ## The whole rebuild -/

theorem mem_addChild {entries : List (Hash512 × BlockHeader)}
    {children : FinMap Hash256 (List Hash512)} {link : Hash256} {id : Hash512} :
    id ∈ ((entries.foldl addChild children).lookup link).getD [] ↔
      id ∈ (children.lookup link).getD [] ∨
        ∃ hdr, (id, hdr) ∈ entries ∧ hdr.prevBlockHash = link ∧ link ≠ 0 := by
  induction entries generalizing children with
  | nil => simp
  | cons e rest ih =>
      obtain ⟨eid, ehdr⟩ := e
      rw [List.foldl_cons, ih]
      have hadd : id ∈ ((addChild children (eid, ehdr)).lookup link).getD [] ↔
          id ∈ (children.lookup link).getD [] ∨
            (id = eid ∧ ehdr.prevBlockHash = link ∧ link ≠ 0) := by
        rw [addChild]
        by_cases hprev : ehdr.prevBlockHash = 0
        · rw [if_pos hprev]
          constructor
          · intro h; exact Or.inl h
          · rintro (h | ⟨-, h, hne⟩)
            · exact h
            · exact absurd (h ▸ hprev) hne
        · rw [if_neg hprev, FinMap.lookup_insert_ite]
          by_cases hlink : link = ehdr.prevBlockHash
          · subst hlink
            simp only [if_true, Option.getD_some, List.mem_append, List.mem_singleton, true_and]
            constructor
            · rintro (h | h)
              · exact Or.inl h
              · exact Or.inr ⟨h, hprev⟩
            · rintro (h | ⟨h, -⟩)
              · exact Or.inl h
              · exact Or.inr h
          · rw [if_neg hlink]
            constructor
            · intro h; exact Or.inl h
            · rintro (h | ⟨-, h, -⟩)
              · exact h
              · exact absurd h.symm hlink
      rw [hadd]
      constructor
      · rintro ((h | ⟨rfl, h⟩) | ⟨hdr, hmem, h⟩)
        · exact Or.inl h
        · exact Or.inr ⟨ehdr, by simp, h⟩
        · exact Or.inr ⟨hdr, List.mem_cons_of_mem _ hmem, h⟩
      · rintro (h | ⟨hdr, hmem, h⟩)
        · exact Or.inl (Or.inl h)
        · rcases List.mem_cons.mp hmem with heq | hmem
          · cases heq
            exact Or.inl (Or.inr ⟨rfl, h⟩)
          · exact Or.inr ⟨hdr, hmem, h⟩

theorem lookup_insertAll_zipIdx {l : List Hash512} (hnd : l.Nodup) {id : Hash512} {i : Nat} :
    (FinMap.insertAll ∅ l.zipIdx).lookup id = some i ↔ l[i]? = some id := by
  have hkeys : (l.zipIdx.map Prod.fst).Nodup := by
    rw [List.zipIdx_map_fst]
    exact hnd
  constructor
  · intro h
    rcases FinMap.mem_of_lookup_insertAll h with hmem | hnone
    · exact List.mem_zipIdx_iff_getElem?.mp hmem
    · rw [Finmap.lookup_empty] at hnone; cases hnone
  · intro h
    exact FinMap.lookup_insertAll_of_mem hkeys (List.mem_zipIdx_iff_getElem?.mpr h)

/-- What `rebuild_known_block_state` makes of a state. -/
structure Rebuilt (p : ChainParams) (s s' : Blockchain) : Prop where
  only : s' = { s with
    children := s'.children
    chainWork := s'.chainWork
    blockHeight := s'.blockHeight
    heightIndex := s'.heightIndex }
  children : ∀ {link id}, id ∈ (s'.children.lookup link).getD [] ↔
    ∃ hdr, s.index.lookup id = some hdr ∧ hdr.prevBlockHash = link ∧ link ≠ 0
  chainWork : ∀ {id w}, s'.chainWork.lookup id = some w ↔
    ∃ l, s.PathTo id l ∧ w = s.pathWork p l
  blockHeight : ∀ {id l}, s.PathTo id l → s'.blockHeight.lookup id = some (l.length - 1)
  heightIndex : ∀ {id h}, s'.heightIndex.lookup id = some h ↔ s.heightMap[h]? = some id ∨
    ∃ l, s.PathTo id l ∧ 1 < l.length ∧ l.length = h + 1

theorem rebuild_spec {s : Blockchain} {tip : Hash512} (hact : s.PathTo tip s.heightMap) :
    Rebuilt p s (rebuildKnownBlockState p env s) := by
  have hactive : ∀ {i id l}, s.heightMap[i]? = some id → s.PathTo id l → l.length = i + 1 := by
    intro i id l hi hl
    have heq := (hact.take hi).unique hl
    have hlt := (List.getElem?_eq_some_iff.mp hi).1
    rw [← heq, List.length_take]
    omega
  -- the state in which the passes start
  generalize hstart : ({ s with
      children := (env.visitOrder.visit s.index).foldl addChild ∅
      chainWork := ∅
      blockHeight := FinMap.insertAll ∅ s.heightMap.zipIdx
      heightIndex := FinMap.insertAll ∅ s.heightMap.zipIdx } : Blockchain) = s₀
  have hup : s₀.up = s.up := by rw [← hstart]; rfl
  have hpath : s₀.PathTo = s.PathTo := by rw [PathTo, PathTo, hup]
  have hindex : s₀.index = s.index := by rw [← hstart]
  have hmap : s₀.heightMap = s.heightMap := by rw [← hstart]
  have hwork : s₀.pathWork p = s.pathWork p := by
    funext l; exact pathWork_congr fun _ _ => by rw [hindex]
  have hactive₀ : ∀ {i id l}, s₀.heightMap[i]? = some id → s₀.PathTo id l → l.length = i + 1 := by
    intro i id l
    rw [hmap, hpath]
    exact hactive
  have hinit : Crediting p s₀ s₀ := by
    refine ⟨rfl, fun {id w} h => ?_, fun {id h} hh => Or.inl ?_, fun {i id} h => ?_⟩
    · rw [← hstart] at h; cases h
    · rw [← hstart] at hh ⊢
      exact (lookup_insertAll_zipIdx (Forest.PathTo.nodup hact)).mp hh
    · rw [← hstart] at h ⊢
      exact (lookup_insertAll_zipIdx (Forest.PathTo.nodup hact)).mpr h
  have hvisit : ∀ {e : Hash512 × BlockHeader}, e ∈ env.visitOrder.visit s.index ↔
      s₀.index.lookup e.1 = some e.2 := by
    intro e
    rw [hindex]
    exact env.visitOrder.mem_visit s.index e.1 e.2
  have hstep : ∀ t e t', e ∈ env.visitOrder.visit s.index → Crediting p s₀ t →
      creditStep p t e = some t' → Crediting p s₀ t' :=
    fun t e t' he ht hte => ht.step hactive₀ (hvisit.mp he) hte
  -- every firing gives work to another id of the index
  have hμ : ∀ t e t', e ∈ env.visitOrder.visit s.index → Crediting p s₀ t →
      creditStep p t e = some t' →
      (s.index.keys.filter fun id => t'.chainWork.lookup id = none).card
        < (s.index.keys.filter fun id => t.chainWork.lookup id = none).card := by
    intro t e t' he _ hte
    obtain ⟨eid, ehdr⟩ := e
    have hmem : eid ∈ s.index.keys :=
      Finmap.mem_keys.mpr (Finmap.mem_of_lookup_eq_some ((env.visitOrder.mem_visit _ _ _).mp he))
    obtain ⟨hnone, hcase⟩ := creditStep_some hte
    obtain ⟨w, hw⟩ : ∃ w, t'.chainWork = t.chainWork.insert eid w := by
      rcases hcase with ⟨-, rfl⟩ | ⟨_, _, _, -, -, -, -, rfl⟩ <;> exact ⟨_, rfl⟩
    refine Finset.card_lt_card (Finset.ssubset_iff_of_subset ?_ |>.mpr ⟨eid, ?_, ?_⟩)
    · intro id hid
      rw [Finset.mem_filter] at hid ⊢
      refine ⟨hid.1, ?_⟩
      have h := hid.2
      rw [hw, FinMap.lookup_insert_ite] at h
      split at h
      · cases h
      · exact h
    · exact Finset.mem_filter.mpr ⟨hmem, hnone⟩
    · rw [Finset.mem_filter, hw, Finmap.lookup_insert]
      rintro ⟨-, h⟩
      cases h
  have hrun : rebuildKnownBlockState p env s = Saturate.run (creditStep p)
      (env.visitOrder.visit s.index) (s.index.keys.card + 1) s₀ := by rw [← hstart]; rfl
  have hcard : (s.index.keys.filter fun id => s₀.chainWork.lookup id = none).card
      < s.index.keys.card + 1 := Nat.lt_succ_of_le (Finset.card_filter_le _ _)
  have hinv : Crediting p s₀ (rebuildKnownBlockState p env s) := by
    rw [hrun]
    exact Saturate.run_invariant hstep _ hinit
  have hsat : ∀ e ∈ env.visitOrder.visit s.index,
      creditStep p (rebuildKnownBlockState p env s) e = none := by
    rw [hrun]
    exact Saturate.run_saturated hstep hμ _ hinit hcard
  generalize rebuildKnownBlockState p env s = s' at hinv hsat
  -- every connected id has work: otherwise a step would still fire
  have hcredited : ∀ {id l}, s.PathTo id l → ∃ w, s'.chainWork.lookup id = some w := by
    intro id l hl
    induction hl with
    | root hid =>
        obtain ⟨hdr, hhdr, hprev⟩ := linkOf_root_iff.mp hid
        rcases creditStep_none (hsat _ ((env.visitOrder.mem_visit _ _ _).mpr hhdr)) with hw | hno
        · exact hw
        · exact absurd hprev hno.1
    | child hid hparent ih =>
        obtain ⟨hdr, hhdr, hprev, hlink⟩ := linkOf_parent_iff.mp hid
        obtain ⟨w, hw⟩ := ih
        obtain ⟨l', -, -, hbh, -⟩ := hinv.work hw
        rcases creditStep_none (hsat _ ((env.visitOrder.mem_visit _ _ _).mpr hhdr)) with hw' | hno
        · exact hw'
        · refine (hno.2 _ _ _ ?_ hw hbh).elim
          rw [hinv.linkIndex, ← hstart]
          exact hlink
  refine ⟨?_, ?_, ?_, ?_, ?_⟩
  · rw [hinv.only, ← hstart]
  · intro link id
    have hch : s'.children = (env.visitOrder.visit s.index).foldl addChild ∅ := by
      rw [hinv.only, ← hstart]
    rw [hch, mem_addChild, Finmap.lookup_empty]
    simp only [Option.getD_none, List.not_mem_nil, false_or, env.visitOrder.mem_visit]
  · intro id w
    constructor
    · intro hw
      obtain ⟨l, hl, hwl, -, -⟩ := hinv.work hw
      exact ⟨l, hpath ▸ hl, by rw [hwl, hwork]⟩
    · rintro ⟨l, hl, rfl⟩
      obtain ⟨w, hw⟩ := hcredited hl
      obtain ⟨l', hl', hwl, -, -⟩ := hinv.work hw
      rw [hpath] at hl'
      rw [hw, hwl, hwork, hl'.unique hl]
  · intro id l hl
    obtain ⟨w, hw⟩ := hcredited hl
    obtain ⟨l', hl', -, hbh, -⟩ := hinv.work hw
    rw [hpath] at hl'
    rw [hbh, hl'.unique hl]
  · intro id h
    constructor
    · intro hh
      have := hinv.heightIndex hh
      rw [hmap, hpath] at this
      exact this
    · rintro (hh | ⟨l, hl, hlt, hlen⟩)
      · exact hinv.active (by rw [hmap]; exact hh)
      · obtain ⟨w, hw⟩ := hcredited hl
        obtain ⟨l', hl', -, -, hhi⟩ := hinv.work hw
        rw [hpath] at hl'
        rw [hl'.unique hl] at hhi
        rw [hhi hlt, hlen]
        rfl

end Blockchain

end Cryptex
