import Cryptex.AcceptRules
import Cryptex.Startup

/-!
# Loading a stored chain

`StoredChain` describes the files of a data directory that hold a chain: the
active ids, the headers they and other known ids stand for, and block files
under the right names, among them those of all active heights. The blocks
themselves may be invalid. The loops of the constructor over the active ids
never meet an unknown id on such a directory.
-/

namespace Cryptex

open Forest

namespace Blockchain

variable {c : Crypto} {p : ChainParams} {env : Env} {H : Set BlockHeader} {s s' : Blockchain}

/-- The index that a list of header entries stands for. -/
def indexOf (entries : List (Hash512 × BlockHeader)) : FinMap Hash512 BlockHeader :=
  FinMap.insertAll ∅ entries

def linkIndexOf (c : Crypto) (entries : List (Hash512 × BlockHeader)) : FinMap Hash256 Hash512 :=
  FinMap.insertAll ∅ (entries.map fun e => (e.2.hash c, e.1))

/-- A data directory with a stored chain. -/
structure StoredChain (c : Crypto) (H : Set BlockHeader) (dir : DataDir) (ids : List Hash512)
    (entries : List (Hash512 × BlockHeader)) : Prop where
  index : dir.files.index = some ids
  headers : dir.files.headers = some entries
  nodup : (entries.map Prod.fst).Nodup
  entry : ∀ e ∈ entries, e.2.powHash c = e.1 ∧ e.2 ∈ H
  path : ∃ tip, Forest.PathTo (linkOf (indexOf entries) (linkIndexOf c entries)) tip ids
  complete : ∀ {i id}, ids[i]? = some id → ∃ b, dir.store.heightFiles.lookup i = some b
  heightFiles : ∀ {i b}, dir.store.heightFiles.lookup i = some b → b.header ∈ H ∧
    ∀ id, ids[i]? = some id → b.header.powHash c = id
  hashFiles : ∀ {id b}, dir.store.hashFiles.lookup id = some b →
    b.header ∈ H ∧ b.header.powHash c = id

theorem lookup_indexOf {entries : List (Hash512 × BlockHeader)}
    (hnd : (entries.map Prod.fst).Nodup) {id : Hash512} {hdr : BlockHeader} :
    (indexOf entries).lookup id = some hdr ↔ (id, hdr) ∈ entries := by
  constructor
  · intro h
    rcases FinMap.mem_of_lookup_insertAll h with hmem | hnone
    · exact hmem
    · rw [Finmap.lookup_empty] at hnone; cases hnone
  · exact FinMap.lookup_insertAll_of_mem hnd

/-- Distinct header entries have distinct links. -/
theorem nodup_links (hH : CollisionFree c H) {entries : List (Hash512 × BlockHeader)}
    (hnd : (entries.map Prod.fst).Nodup) (hentry : ∀ e ∈ entries, e.2.powHash c = e.1 ∧ e.2 ∈ H) :
    ((entries.map fun e => (e.2.hash c, e.1)).map Prod.fst).Nodup := by
  rw [List.map_map]
  refine List.Nodup.map_on ?_ (List.Nodup.of_map Prod.fst hnd)
  intro e he e' he' heq
  obtain ⟨hid, hmem⟩ := hentry e he
  obtain ⟨hid', hmem'⟩ := hentry e' he'
  have hhdr : e.2 = e'.2 := hH.hash_inj hmem hmem' heq
  exact Prod.ext (by rw [← hid, ← hid', hhdr]) hhdr

theorem lookup_linkIndexOf (hH : CollisionFree c H) {entries : List (Hash512 × BlockHeader)}
    (hnd : (entries.map Prod.fst).Nodup) (hentry : ∀ e ∈ entries, e.2.powHash c = e.1 ∧ e.2 ∈ H)
    {link : Hash256} {id : Hash512} :
    (linkIndexOf c entries).lookup link = some id ↔ ∃ hdr, (id, hdr) ∈ entries ∧ hdr.hash c = link := by
  constructor
  · intro h
    rcases FinMap.mem_of_lookup_insertAll h with hmem | hnone
    · obtain ⟨⟨id', hdr⟩, he, heq⟩ := List.mem_map.mp hmem
      cases heq
      exact ⟨hdr, he, rfl⟩
    · rw [Finmap.lookup_empty] at hnone; cases hnone
  · rintro ⟨hdr, he, rfl⟩
    exact FinMap.lookup_insertAll_of_mem (nodup_links hH hnd hentry)
      (List.mem_map.mpr ⟨(id, hdr), he, rfl⟩)

/-! ## The loops over the active ids -/

/-- The header maps of a state that is being loaded. -/
structure Loading (c : Crypto) (entries : List (Hash512 × BlockHeader)) (ids : List Hash512)
    (s : Blockchain) : Prop where
  index : s.index = indexOf entries
  linkIndex : s.linkIndex = linkIndexOf c entries
  heightMap : s.heightMap = ids

/-- Only the tip and the maps that are recomputed may differ. -/
def SameHeaders (s s' : Blockchain) : Prop :=
  s' = { s with
    bestHeight := s'.bestHeight
    tipHash := s'.tipHash
    tipBits := s'.tipBits
    heightIndex := s'.heightIndex
    chainWork := s'.chainWork
    blockHeight := s'.blockHeight }

theorem SameHeaders.trans {s₁ s₂ s₃ : Blockchain} (h₁₂ : SameHeaders s₁ s₂)
    (h₂₃ : SameHeaders s₂ s₃) : SameHeaders s₁ s₃ := by
  rw [SameHeaders] at *
  rw [h₂₃, h₁₂]

section

variable {dir : DataDir} {ids : List Hash512} {entries : List (Hash512 × BlockHeader)}

theorem Loading.same (h : Loading c entries ids s) (hs : SameHeaders s s') :
    Loading c entries ids s' := by
  rw [SameHeaders] at hs
  refine ⟨?_, ?_, ?_⟩
  · rw [hs]; exact h.index
  · rw [hs]; exact h.linkIndex
  · rw [hs]; exact h.heightMap

theorem StoredChain.lookup (h : StoredChain c H dir ids entries) {id : Hash512} (hid : id ∈ ids) :
    ∃ hdr, (indexOf entries).lookup id = some hdr := by
  obtain ⟨tip, hpath⟩ := h.path
  cases hl : (indexOf entries).lookup id with
  | some hdr => exact ⟨hdr, rfl⟩
  | none => exact absurd (linkOf_missing_of_lookup_none hl) (hpath.ne_missing hid)

theorem StoredChain.ids_ne_nil (h : StoredChain c H dir ids entries) : ids ≠ [] := by
  obtain ⟨tip, hpath⟩ := h.path
  exact hpath.ne_nil

/-- The link of an active id is entered already. -/
theorem Loading.insert_link (hH : CollisionFree c H) (h : StoredChain c H dir ids entries)
    (hs : Loading c entries ids s) {id : Hash512} {hdr : BlockHeader}
    (hid : s.index.lookup id = some hdr) : s.linkIndex.insert (hdr.hash c) id = s.linkIndex := by
  rw [hs.index] at hid
  rw [hs.linkIndex]
  exact FinMap.insert_eq_self
    ((lookup_linkIndexOf hH h.nodup h.entry).mpr ⟨hdr, (lookup_indexOf h.nodup).mp hid, rfl⟩)

theorem noteActive_some (hH : CollisionFree c H) (h : StoredChain c H dir ids entries) :
    ∀ {rest : List Hash512} (k : Nat) {s : Blockchain}, Loading c entries ids s →
      (∀ id ∈ rest, id ∈ ids) → ∃ s', noteActive c s k rest = some s' ∧ SameHeaders s s'
  | [], _, s, _, _ => ⟨s, rfl, rfl⟩
  | id :: rest, k, s, hs, hmem => by
      obtain ⟨hdr, hhdr⟩ := h.lookup (hmem id (by simp))
      rw [← hs.index] at hhdr
      simp only [noteActive, hhdr, hs.insert_link hH h hhdr]
      have hone : SameHeaders s { s with
          bestHeight := k
          tipHash := id
          tipBits := hdr.bits
          heightIndex := s.heightIndex.insert id k
          blockHeight := s.blockHeight.insert id k } := rfl
      obtain ⟨s', heq, hsame⟩ := noteActive_some hH h (k + 1) (hs.same hone)
        (fun j hj => hmem j (List.mem_cons_of_mem _ hj))
      exact ⟨s', heq, hone.trans hsame⟩

/-- The parent of an id on the active path is the one before it. -/
theorem StoredChain.parent (h : StoredChain c H dir ids entries) (hs : Loading c entries ids s)
    {pre rest : List Hash512} {id : Hash512} (hids : ids = pre ++ id :: rest) {hdr : BlockHeader}
    (hhdr : s.index.lookup id = some hdr) (hpre : pre ≠ []) :
    ∃ j ∈ pre, s.linkIndex.lookup hdr.prevBlockHash = some j := by
  obtain ⟨tip, hpath⟩ := h.path
  have hpos : 0 < pre.length := List.length_pos_iff.mpr hpre
  have hj : ids[pre.length - 1]? = some pre[pre.length - 1] := by
    rw [hids, List.getElem?_append_left (by omega), List.getElem?_eq_getElem]
  have hid : ids[pre.length - 1 + 1]? = some id := by
    rw [hids, show pre.length - 1 + 1 = pre.length by omega, List.getElem?_append_right (by omega),
      Nat.sub_self, List.getElem?_cons_zero]
  obtain ⟨hdr', hhdr', -, hlink⟩ := linkOf_parent_iff.mp (hpath.up_succ hj hid)
  rw [hs.index, hhdr'] at hhdr
  cases hhdr
  exact ⟨_, List.getElem_mem _, by rw [hs.linkIndex, hlink]⟩

/-- The ids before have work. -/
def WorkKnown (s : Blockchain) (pre : List Hash512) : Prop :=
  ∀ j ∈ pre, ∃ w, s.chainWork.lookup j = some w

theorem WorkKnown.snoc {pre : List Hash512} (h : s.WorkKnown pre) {s' : Blockchain}
    {id : Hash512} {w : Nat} (hs' : s'.chainWork = s.chainWork.insert id w) :
    s'.WorkKnown (pre ++ [id]) := by
  intro j hj
  rw [hs', FinMap.lookup_insert_ite]
  split
  · exact ⟨w, rfl⟩
  · next hne =>
      rcases List.mem_append.mp hj with hj | hj
      · exact h j hj
      · exact absurd (List.mem_singleton.mp hj) hne

/-- The work before an active id is found. -/
theorem WorkKnown.before (h : StoredChain c H dir ids entries) (hs : Loading c entries ids s)
    {pre rest : List Hash512} {id : Hash512} (hids : ids = pre ++ id :: rest)
    (hwork : s.WorkKnown pre) {hdr : BlockHeader} (hhdr : s.index.lookup id = some hdr) :
    ∃ w, (if pre.length = 0 then some 0
      else (s.linkIndex.lookup hdr.prevBlockHash).bind s.chainWork.lookup) = some w := by
  by_cases hpre : pre = []
  · subst hpre
    exact ⟨0, rfl⟩
  · rw [if_neg (by rw [List.length_eq_zero_iff]; exact hpre)]
    obtain ⟨j, hj, hlink⟩ := h.parent hs hids hhdr hpre
    obtain ⟨w, hw⟩ := hwork j hj
    exact ⟨w, by rw [hlink]; exact hw⟩

theorem activeWork_some (h : StoredChain c H dir ids entries) :
    ∀ (rest pre : List Hash512) {s : Blockchain}, Loading c entries ids s → ids = pre ++ rest →
      s.WorkKnown pre →
      ∃ s', activeWork p s pre.length rest = some s' ∧ SameHeaders s s'
  | [], _, s, _, _, _ => ⟨s, rfl, rfl⟩
  | id :: rest, pre, s, hs, hids, hwork => by
      obtain ⟨hdr, hhdr⟩ := h.lookup (show id ∈ ids by rw [hids]; simp)
      rw [← hs.index] at hhdr
      obtain ⟨w, hw⟩ := hwork.before h hs hids hhdr
      simp only [activeWork, hhdr, hw]
      have hone : SameHeaders s
          { s with chainWork := s.chainWork.insert id (w + blockWork p hdr.bits) } := rfl
      obtain ⟨s', heq, hsame⟩ := activeWork_some h rest (pre ++ [id]) (hs.same hone)
        (by rw [hids]; simp) (hwork.snoc rfl)
      rw [List.length_append, List.length_singleton] at heq
      exact ⟨s', heq, hone.trans hsame⟩

theorem ensureActive_some (hH : CollisionFree c H) (h : StoredChain c H dir ids entries) :
    ∀ (rest pre : List Hash512) {s : Blockchain}, Loading c entries ids s → ids = pre ++ rest →
      s.WorkKnown pre →
      ∃ s', ensureActive c p s pre.length rest = some s' ∧ SameHeaders s s' ∧
        s'.bestHeight = s.bestHeight ∧ s'.tipHash = s.tipHash ∧ s'.tipBits = s.tipBits
  | [], _, s, _, _, _ => ⟨s, rfl, rfl, rfl, rfl, rfl⟩
  | id :: rest, pre, s, hs, hids, hwork => by
      obtain ⟨hdr, hhdr⟩ := h.lookup (show id ∈ ids by rw [hids]; simp)
      rw [← hs.index] at hhdr
      obtain ⟨w, hw⟩ := hwork.before h hs hids hhdr
      simp only [ensureActive, hhdr, hs.insert_link hH h hhdr, hw]
      have hone : SameHeaders s { s with
          heightIndex := s.heightIndex.insert id pre.length
          chainWork := s.chainWork.insert id (w + blockWork p hdr.bits)
          blockHeight := s.blockHeight.insert id pre.length } := rfl
      obtain ⟨s', heq, hsame, htip⟩ := ensureActive_some hH h rest (pre ++ [id]) (hs.same hone)
        (by rw [hids]; simp) (hwork.snoc rfl)
      rw [List.length_append, List.length_singleton] at heq
      exact ⟨s', heq, hone.trans hsame, htip⟩

end

end Blockchain

end Cryptex
