import Cryptex.FailedActivation
import Cryptex.Heights

/-!
# Header sync

`block_locator` lists active ids at growing distances from the tip, and
`headers_after_locator` answers with the active headers above the first of
them that has a height. On the node that answers, a height is also given to
the blocks of side branches when the known blocks are rebuilt: the answer
then starts above a block that is not on its chain.
-/

namespace Cryptex

open Forest

namespace Blockchain

/-! ## The locator -/

/-- The loop of `block_locator`, for the entries that are left; `none` when
`height_map_.at` throws. -/
def locatorLoop (s : Blockchain) : Nat → Nat → Nat → Nat → Option (List Hash512)
  | 0, _, _, _ => some []
  | remaining + 1, entries, step, height =>
      match s.heightMap[height]? with
      | none => none
      | some id =>
          if height = 0 then some [id]
          else
            let step := if entries + 1 > 10 then step * 2 else step
            (locatorLoop s remaining (entries + 1) step
              (if height > step then height - step else 0)).map (id :: ·)

def blockLocator (s : Blockchain) (maxEntries : Nat) : Option (List Hash512) :=
  if s.heightMap = [] ∨ maxEntries = 0 then some []
  else locatorLoop s maxEntries 0 1 s.bestHeight

/-! ## The answer -/

/-- The height that the answer starts at. -/
def startHeight (s : Blockchain) (locatorHashes : List Nat) : Nat :=
  match locatorHashes.findSome? s.getHeightByHash with
  | some height => height + 1
  | none => 0

def headersLoop (s : Blockchain) : Nat → Nat → List BlockHeader
  | 0, _ => []
  | remaining + 1, h =>
      if h ≤ s.bestHeight then
        match s.getBlock h with
        | none => []
        | some block => block.header :: headersLoop s remaining (h + 1)
      else []

def headersAfterLocator (s : Blockchain) (locatorHashes : List Nat) (maxHeaders : Nat) :
    List BlockHeader :=
  if s.heightMap = [] ∨ maxHeaders = 0 then []
  else headersLoop s maxHeaders (s.startHeight locatorHashes)

/-- What the node `b` sends to `a`: consecutive headers of its chain, from the
first one or from one that extends a block of both chains on, and not nothing
when it has more than the common blocks. -/
structure Continues (c : Crypto) (a b : Blockchain) (headers : List BlockHeader) : Prop where
  active : ∃ start,
    headers.map some = ((b.heightMap.drop start).take headers.length).map b.index.lookup
  attached : ∀ hdr, headers.head? = some hdr →
    (b.heightMap.head?.bind b.index.lookup = some hdr) ∨
      ∃ id parent, id ∈ a.heightMap ∧ id ∈ b.heightMap ∧ b.index.lookup id = some parent ∧
        hdr.prevBlockHash = parent.hash c
  beyond : ¬ b.heightMap <+: a.heightMap → headers ≠ []

/-- The first id of a locator that has a height on this node. -/
def firstKnown (s : Blockchain) (locator : List Hash512) : Option Hash512 :=
  locator.find? fun id => (s.getHeightByHash id.toNat).isSome

variable {c : Crypto} {p : ChainParams} {H : Set BlockHeader} {s a b : Blockchain}

/-! ## What the locator lists -/

theorem locatorLoop_spec (hs : s.Coherent c p H) : ∀ (remaining entries step height : Nat),
    height ≤ s.bestHeight → ∃ locator, locatorLoop s remaining entries step height = some locator ∧
      ∀ id ∈ locator, id ∈ s.heightMap
  | 0, _, _, _, _ => ⟨[], rfl, fun _ h => absurd h List.not_mem_nil⟩
  | remaining + 1, entries, step, height, hle => by
      have hbest := hs.best
      have hid := List.getElem?_eq_getElem (show height < s.heightMap.length by omega)
      have hmem := List.mem_of_getElem? hid
      rw [locatorLoop, hid]
      dsimp only
      split
      · refine ⟨_, rfl, fun id h => ?_⟩
        rw [List.mem_singleton.mp h]
        exact hmem
      · have hlower : ∀ step, (if height > step then height - step else 0) ≤ s.bestHeight := by
          intro step
          split <;> omega
        obtain ⟨locator, hrest, hsub⟩ := locatorLoop_spec hs remaining (entries + 1)
          (if entries + 1 > 10 then step * 2 else step) _ (hlower _)
        rw [hrest]
        refine ⟨_, rfl, fun id h => ?_⟩
        rcases List.mem_cons.mp h with rfl | h
        · exact hmem
        · exact hsub id h

/-- The locator of a coherent state lists ids of its chain. -/
theorem blockLocator_spec (hs : s.Coherent c p H) (maxEntries : Nat) :
    ∃ locator, s.blockLocator maxEntries = some locator ∧ ∀ id ∈ locator, id ∈ s.heightMap := by
  rw [blockLocator]
  split
  · exact ⟨[], rfl, fun _ h => absurd h List.not_mem_nil⟩
  · exact locatorLoop_spec hs _ _ _ _ (Nat.le_refl _)

/-! ## Where the answer starts -/

theorem firstKnown_some {locator : List Hash512} {id : Hash512}
    (h : s.firstKnown locator = some id) :
    id ∈ locator ∧ ∃ k, s.getHeightByHash id.toNat = some k := by
  rw [firstKnown] at h
  refine ⟨List.mem_of_find?_eq_some h, ?_⟩
  have hknown := List.find?_some h
  exact Option.isSome_iff_exists.mp hknown

theorem startHeight_eq (s : Blockchain) : ∀ locator : List Hash512,
    s.startHeight (locator.map BitVec.toNat) = match s.firstKnown locator with
      | none => 0
      | some id => (s.getHeightByHash id.toNat).getD 0 + 1
  | [] => rfl
  | id :: rest => by
      have hrest := startHeight_eq s rest
      rw [startHeight, firstKnown] at hrest ⊢
      rw [List.map_cons, List.findSome?_cons, List.find?_cons]
      cases hk : s.getHeightByHash id.toNat with
      | some k => simp only [Option.isSome_some, hk, Option.getD_some]
      | none => exact hrest

theorem startHeight_of_known {locator : List Hash512} {id : Hash512} {k : Nat}
    (h : s.firstKnown locator = some id) (hk : s.getHeightByHash id.toNat = some k) :
    s.startHeight (locator.map BitVec.toNat) = k + 1 := by
  rw [startHeight_eq, h]
  simp only [hk, Option.getD_some]

theorem startHeight_of_unknown {locator : List Hash512} (h : s.firstKnown locator = none) :
    s.startHeight (locator.map BitVec.toNat) = 0 := by
  rw [startHeight_eq, h]

/-- An active id of one node that has a height on another: it stands at that
height on the first chain, and on the second one if it is active there. -/
theorem known_height (hH : CollisionFree c H) (ha : a.Coherent c p H) (hb : b.Coherent c p H)
    {id : Hash512} {k : Nat} (hid : id ∈ a.heightMap) (hk : b.getHeightByHash id.toNat = some k) :
    a.heightMap[k]? = some id ∧ (id ∈ b.heightMap → b.heightMap[k]? = some id) := by
  obtain ⟨hdr, hhdr⟩ := PathTo.lookup ha.active hid
  obtain ⟨id', hcanonical, hheight⟩ : ∃ id', b.canonicalBlockIdFor id.toNat = some id' ∧
      b.heightIndex.lookup id' = some k := by
    unfold getHeightByHash at hk
    cases hc : b.canonicalBlockIdFor id.toNat with
    | none => rw [hc] at hk; cases hk
    | some id' => rw [hc] at hk; exact ⟨id', rfl, hk⟩
  have hsame : id' = id := by
    obtain ⟨hdr', hhdr', hx⟩ := (canonicalBlockIdFor_iff hH hb.index).mp hcanonical
    rcases hx with hx | hx
    · rw [← hb.index.id_eq hhdr']
      exact (BitVec.eq_of_toNat_eq hx).symm
    · -- an id is larger than any link
      have hle := le_toNat_powHash hH (ha.index.mem hhdr)
      rw [ha.index.id_eq hhdr, hx] at hle
      exact absurd (hdr'.hash c).isLt (Nat.not_lt.mpr hle)
  subst hsame
  obtain ⟨l, w, hl, hlen, -⟩ := hb.heightIndex hheight
  obtain ⟨i, hi⟩ := List.mem_iff_getElem?.mp hid
  have heq := hb.index.pathTo_unique hH ha.index hl (ha.active.take hi)
  have hlt := (List.getElem?_eq_some_iff.mp hi).1
  have hik : i = k := by
    have hlength := congrArg List.length heq
    rw [List.length_take] at hlength
    omega
  exact ⟨hik ▸ hi, fun hmem => hb.active_at hmem hl hlen⟩

/-! ## What the answer holds -/

/-- A served height file has the header of its id. -/
theorem Serves.header (hH : CollisionFree c H) (hs : s.Coherent c p H) (h : s.Serves c) {k : Nat}
    {id : Hash512} (hid : s.heightMap[k]? = some id) :
    ∃ blk, s.getBlock k = some blk ∧ s.index.lookup id = some blk.header := by
  have hlt := (List.getElem?_eq_some_iff.mp hid).1
  have hbest := hs.best
  obtain ⟨id', blk, hid', hblk, hpow⟩ := h k (by omega)
  rw [hid] at hid'
  cases hid'
  obtain ⟨hdr, hhdr⟩ := PathTo.lookup hs.active (List.mem_of_getElem? hid)
  have heq : hdr = blk.header := hH.eq_of_powHash (hs.index.mem hhdr) (hs.stored.1 _ _ hblk)
    ((hs.index.id_eq hhdr).trans hpow.symm)
  exact ⟨blk, hblk, heq ▸ hhdr⟩

theorem headersLoop_eq (hH : CollisionFree c H) (hs : s.Coherent c p H) (h : s.Serves c) :
    ∀ remaining start : Nat, (headersLoop s remaining start).map some
      = ((s.heightMap.drop start).take remaining).map s.index.lookup
  | 0, start => by rw [headersLoop, List.take_zero]; rfl
  | remaining + 1, start => by
      have hbest := hs.best
      rw [headersLoop]
      by_cases hle : start ≤ s.bestHeight
      · have hlt : start < s.heightMap.length := by omega
        obtain ⟨blk, hblk, hhdr⟩ := h.header hH hs (List.getElem?_eq_getElem hlt)
        rw [if_pos hle, hblk, List.drop_eq_getElem_cons hlt, List.take_succ_cons]
        simp only [List.map_cons, hhdr, headersLoop_eq hH hs h remaining (start + 1)]
      · rw [if_neg hle, List.drop_eq_nil_of_le (by omega), List.take_nil]
        rfl

theorem headersLoop_active (hH : CollisionFree c H) (hs : s.Coherent c p H) (h : s.Serves c)
    (remaining start : Nat) : (headersLoop s remaining start).map some
      = ((s.heightMap.drop start).take (headersLoop s remaining start).length).map s.index.lookup := by
  have heq := headersLoop_eq hH hs h remaining start
  have hlen := congrArg List.length heq
  rw [List.length_map, List.length_map, List.length_take] at hlen
  rw [hlen, heq]
  congr 1
  rw [List.take_eq_take_iff]
  omega

theorem headersLoop_head? (hH : CollisionFree c H) (hs : s.Coherent c p H) (h : s.Serves c)
    {remaining : Nat} (hpos : 0 < remaining) (start : Nat) :
    (headersLoop s remaining start).head? = (s.heightMap[start]?).bind s.index.lookup := by
  obtain ⟨n, rfl⟩ : ∃ n, remaining = n + 1 := ⟨remaining - 1, by omega⟩
  have hbest := hs.best
  rw [headersLoop]
  by_cases hle : start ≤ s.bestHeight
  · have hid := List.getElem?_eq_getElem (show start < s.heightMap.length by omega)
    obtain ⟨blk, hblk, hhdr⟩ := h.header hH hs hid
    rw [if_pos hle, hblk, hid, Option.bind_some, hhdr]
    rfl
  · rw [if_neg hle, List.getElem?_eq_none_iff.mpr (by omega)]
    rfl

/-- The header after an active one names it. -/
theorem Coherent.next_header (hs : s.Coherent c p H) {k : Nat} {id next : Hash512}
    (hid : s.heightMap[k]? = some id) (hnext : s.heightMap[k + 1]? = some next) :
    ∃ parent hdr, s.index.lookup id = some parent ∧ s.index.lookup next = some hdr ∧
      hdr.prevBlockHash = parent.hash c := by
  obtain ⟨hdr, parent, hhdr, -, hparent, hlink⟩ :=
    hs.index.up_parent_iff.mp (hs.active.up_succ hid hnext)
  exact ⟨parent, hdr, hparent, hhdr, hlink.symm⟩

/-! ## The exchange -/

section

variable {headers : List BlockHeader} {id : Hash512} {k : Nat}

/-- Above a block of both chains the answer continues them. -/
theorem continues_of_active (hH : CollisionFree c H) (ha : a.Coherent c p H) (hb : b.Coherent c p H)
    (hactive : headers.map some
      = ((b.heightMap.drop (k + 1)).take headers.length).map b.index.lookup)
    (hhead : headers.head? = (b.heightMap[k + 1]?).bind b.index.lookup)
    (hka : a.heightMap[k]? = some id) (hkb : b.heightMap[k]? = some id) :
    Continues c a b headers := by
  refine ⟨⟨_, hactive⟩, fun hdr hhdr => Or.inr ?_, fun hbeyond hnil => hbeyond ?_⟩
  · rw [hhead] at hhdr
    obtain ⟨next, hnext, hlookup⟩ := Option.bind_eq_some_iff.mp hhdr
    obtain ⟨parent, hdr', hparent, hhdr', hprev⟩ := hb.next_header hkb hnext
    rw [hlookup] at hhdr'
    cases hhdr'
    exact ⟨id, parent, List.mem_of_getElem? hka, List.mem_of_getElem? hkb, hparent, hprev⟩
  · -- nothing follows, and up to the block the chains are one
    have hlast : b.heightMap[k + 1]? = none := by
      rw [hnil] at hhead
      cases hnext : b.heightMap[k + 1]? with
      | none => rfl
      | some next =>
          obtain ⟨hdr, hhdr⟩ := PathTo.lookup hb.active (List.mem_of_getElem? hnext)
          rw [hnext, Option.bind_some, hhdr] at hhead
          cases hhead
    have hsame := hb.index.pathTo_unique hH ha.index (hb.active.take hkb) (ha.active.take hka)
    rw [List.take_of_length_le (List.getElem?_eq_none_iff.mp hlast)] at hsame
    rw [hsame]
    exact List.take_prefix _ _

/-- Above a block that is not on the chain the answer continues it only when
there is nothing to send. -/
theorem continues_of_aside (hH : CollisionFree c H) (ha : a.Coherent c p H) (hb : b.Coherent c p H)
    (hactive : headers.map some
      = ((b.heightMap.drop (k + 1)).take headers.length).map b.index.lookup)
    (hhead : headers.head? = (b.heightMap[k + 1]?).bind b.index.lookup)
    (hka : a.heightMap[k]? = some id) (hmem : id ∉ b.heightMap) :
    Continues c a b headers ↔ b.heightMap <+: a.heightMap := by
  have hnd : b.heightMap.Nodup := Forest.PathTo.nodup hb.active
  cases hnext : b.heightMap[k + 1]? with
  | none =>
      rw [hnext, Option.bind_none, List.head?_eq_none_iff] at hhead
      subst hhead
      constructor
      · intro h
        by_contra hno
        exact h.beyond hno rfl
      · intro hprefix
        exact ⟨⟨_, hactive⟩, nofun, fun hno => absurd hprefix hno⟩
  | some next =>
      obtain ⟨here, hhere⟩ : ∃ here, b.heightMap[k]? = some here :=
        ⟨_, List.getElem?_eq_getElem (Nat.lt_of_succ_lt (List.getElem?_eq_some_iff.mp hnext).1)⟩
      obtain ⟨parent, hdr, hparent, hhdr, hprev⟩ := hb.next_header hhere hnext
      rw [hnext, Option.bind_some, hhdr] at hhead
      refine iff_of_false (fun h => ?_) fun hprefix => hmem ?_
      · rcases h.attached hdr hhead with hfirst | ⟨id', parent', hida, hidb, hparent', hprev'⟩
        · -- the header stands at one position only
          obtain ⟨root, hroot, hlookup⟩ := Option.bind_eq_some_iff.mp hfirst
          rw [List.head?_eq_getElem?] at hroot
          have heq : root = next := by rw [← hb.index.id_eq hlookup, ← hb.index.id_eq hhdr]
          rw [heq] at hroot
          have := (List.getElem?_inj (List.getElem?_eq_some_iff.mp hroot).1 hnd).mp
            (hroot.trans hnext.symm)
          omega
        · have hpeq : parent' = parent :=
            hH.hash_inj (hb.index.mem hparent') (hb.index.mem hparent) (hprev'.symm.trans hprev)
          have hid' : id' = here := by
            rw [← hb.index.id_eq hparent', hpeq, hb.index.id_eq hparent]
          subst hid'
          -- the active block below is at its height on the other chain too
          obtain ⟨i, hi⟩ := List.mem_iff_getElem?.mp hida
          have hsame := hb.index.pathTo_unique hH ha.index (hb.active.take hhere) (ha.active.take hi)
          have hlength := congrArg List.length hsame
          rw [List.length_take, List.length_take] at hlength
          have hltb := (List.getElem?_eq_some_iff.mp hhere).1
          have hlta := (List.getElem?_eq_some_iff.mp hi).1
          have hik : i = k := by omega
          rw [hik, hka] at hi
          cases hi
          exact hmem hidb
      · obtain ⟨tail, htail⟩ := hprefix
        have hsame : a.heightMap[k]? = b.heightMap[k]? := by
          rw [← htail, List.getElem?_append_left (List.getElem?_eq_some_iff.mp hhere).1]
        rw [hka, hhere] at hsame
        cases hsame
        exact List.mem_of_getElem? hhere

end

/-- The answer from a start continues the common chain. -/
theorem continues_iff (hH : CollisionFree c H) (ha : a.Coherent c p H) (hb : b.Coherent c p H)
    (hserves : b.Serves c) {maxHeaders start : Nat} (hpos : 0 < maxHeaders)
    {known : Option Hash512} (hmem : ∀ id, known = some id → id ∈ a.heightMap)
    (hknown : ∀ id, known = some id → ∃ k, b.getHeightByHash id.toNat = some k ∧ start = k + 1)
    (hnone : known = none → start = 0) :
    Continues c a b (headersLoop b maxHeaders start) ↔
      b.heightMap <+: a.heightMap ∨ ∀ id, known = some id → id ∈ b.heightMap := by
  have hactive := headersLoop_active hH hb hserves maxHeaders start
  have hhead := headersLoop_head? hH hb hserves hpos start
  cases known with
  | none =>
      have hzero := hnone rfl
      subst hzero
      refine iff_of_true ⟨⟨0, hactive⟩, fun hdr hhdr => Or.inl ?_, fun _ hnil => ?_⟩
        (Or.inr fun _ h => nomatch h)
      · rw [List.head?_eq_getElem?, ← hhead, hhdr]
      · obtain ⟨id, hid⟩ : ∃ id, b.heightMap[0]? = some id :=
          ⟨_, List.getElem?_eq_getElem (List.length_pos_iff.mpr hb.heightMap_ne_nil)⟩
        obtain ⟨blk, -, hhdr⟩ := hserves.header hH hb hid
        rw [hnil, hid, Option.bind_some, hhdr] at hhead
        cases hhead
  | some id =>
      obtain ⟨k, hk, hstart⟩ := hknown id rfl
      subst hstart
      obtain ⟨hka, hkb⟩ := known_height hH ha hb (hmem id rfl) hk
      simp only [Option.some.injEq, forall_eq']
      by_cases hid : id ∈ b.heightMap
      · exact iff_of_true (continues_of_active hH ha hb hactive hhead hka (hkb hid)) (Or.inr hid)
      · rw [or_iff_left hid]
        exact continues_of_aside hH ha hb hactive hhead hka hid

/-- The answer to a locator continues the common chain. -/
theorem headersAfterLocator_continues_iff (hH : CollisionFree c H) (ha : a.Coherent c p H)
    (hb : b.Coherent c p H) (hserves : b.Serves c) {maxHeaders : Nat} (hpos : 0 < maxHeaders)
    {locator : List Hash512} (hsub : ∀ id ∈ locator, id ∈ a.heightMap) :
    Continues c a b (b.headersAfterLocator (locator.map BitVec.toNat) maxHeaders) ↔
      b.heightMap <+: a.heightMap ∨ ∀ id, b.firstKnown locator = some id → id ∈ b.heightMap := by
  have hne : ¬ (b.heightMap = [] ∨ maxHeaders = 0) := by
    rintro (hnil | hzero)
    · exact hb.heightMap_ne_nil hnil
    · omega
  rw [headersAfterLocator, if_neg hne]
  refine continues_iff hH ha hb hserves hpos (fun id hid => hsub id (firstKnown_some hid).1)
    (fun id hid => ?_) startHeight_of_unknown
  obtain ⟨k, hk⟩ := (firstKnown_some hid).2
  exact ⟨k, hk, startHeight_of_known hid hk⟩

/-- The answer continues the common chain, if and only if the first known entry
of the locator is active on the node that answers or that node has nothing
but common blocks. -/
theorem header_sync_iff (hH : CollisionFree c H) (ha : Reachable c p H (.any c p H) a)
    (hb : Reachable c p H (.any c p H) b) (hserves : b.Serves c) (maxEntries : Nat)
    {maxHeaders : Nat} (hpos : 0 < maxHeaders) :
    ∃ locator, a.blockLocator maxEntries = some locator ∧
      (Continues c a b (b.headersAfterLocator (locator.map BitVec.toNat) maxHeaders) ↔
        b.heightMap <+: a.heightMap ∨ ∀ id, b.firstKnown locator = some id → id ∈ b.heightMap) := by
  have hca := ha.any_coherent hH
  obtain ⟨locator, hlocator, hsub⟩ := blockLocator_spec hca maxEntries
  exact ⟨locator, hlocator,
    headersAfterLocator_continues_iff hH hca (hb.any_coherent hH) hserves hpos hsub⟩

/-! ## Samples -/

open Regtest

/-- A node one block ahead sends that block. -/
theorem header_sync_ahead : ∃ a b locator, a.blockLocator 32 = some locator ∧ b.bestHeight = 2 ∧
    Continues crypto a b (b.headersAfterLocator (locator.map BitVec.toNat) 2000) := by
  have hrun : ((after [a1]).bind fun a => (after [a1, a2]).map fun b =>
      ((a.blockLocator 32).map fun locator =>
        (b.firstKnown locator).all fun id => decide (id ∈ b.heightMap), b.bestHeight))
      = some (some true, 2) := by decide +kernel
  obtain ⟨a, ha, hrest⟩ := Option.bind_eq_some_iff.mp hrun
  obtain ⟨b, hb, heq⟩ := Option.map_eq_some_iff.mp hrest
  obtain ⟨hknown, hbest⟩ := Prod.mk.inj heq
  have hreach := writable_after (by decide) hb
  obtain ⟨hcoh, hd⟩ := hreach.described Regtest.collisionFree
  have hpos : 0 < 2000 := by decide
  obtain ⟨locator, hlocator, hiff⟩ := header_sync_iff Regtest.collisionFree
    (reachable_after (by decide) ha) hreach.any_of_writable (hd.serves hcoh) 32 hpos
  refine ⟨a, b, locator, hlocator, hbest, hiff.mpr (Or.inr fun id hid => ?_)⟩
  rw [hlocator, Option.map_some, hid] at hknown
  simpa using hknown

/-- The node that answers has `b1` as a side branch and was started again: it
sends `a2` to the node whose chain ends with `b1`. -/
theorem not_header_sync : ¬ ∀ a b : Blockchain, Reachable crypto .regtest Regtest.H rules a →
    Reachable crypto .regtest Regtest.H rules b → b.Serves crypto →
    ∃ locator, a.blockLocator 32 = some locator ∧
      Continues crypto a b (b.headersAfterLocator (locator.map BitVec.toNat) 2000) := by
  intro hclaim
  have hrun : ((after [b1]).bind fun a => (restarted [a1, b1, a2] []).map fun b =>
      ((a.blockLocator 32).map fun locator =>
        (b.firstKnown locator).any fun id => decide (id ∉ b.heightMap),
        decide (b.heightMap <+: a.heightMap)))
      = some (some true, false) := by decide +kernel
  obtain ⟨a, ha, hrest⟩ := Option.bind_eq_some_iff.mp hrun
  obtain ⟨b, hb, heq⟩ := Option.map_eq_some_iff.mp hrest
  obtain ⟨hknown, hprefix⟩ := Prod.mk.inj heq
  have hra := reachable_after (by decide) ha
  have hrb := writable_restarted (by decide) (by decide) hb
  have hca := hra.any_coherent Regtest.collisionFree
  obtain ⟨hcb, hd⟩ := hrb.described Regtest.collisionFree
  have hserves := hd.serves hcb
  obtain ⟨locator, hlocator, hcont⟩ := hclaim a b hra hrb.any_of_writable hserves
  obtain ⟨locator', hlocator', hsub⟩ := blockLocator_spec hca 32
  rw [hlocator] at hlocator' hknown
  cases hlocator'
  rw [Option.map_some] at hknown
  have hactive := (headersAfterLocator_continues_iff Regtest.collisionFree hca hcb hserves
    (by decide) hsub).mp hcont
  rcases hactive with h | h
  · exact of_decide_eq_false hprefix h
  · cases hid : b.firstKnown locator with
    | none =>
        rw [hid] at hknown
        cases hknown
    | some id =>
        rw [hid] at hknown
        exact of_decide_eq_true (Option.some.inj hknown) (h id hid)

end Blockchain

end Cryptex
