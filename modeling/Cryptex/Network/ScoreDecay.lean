import Cryptex.Lib.Intervals
import Cryptex.Network.PeerOps

/-!
# How a score falls

The score of a label falls by some points for every whole interval. The clock
by which that is counted is the field `last_updated`, which a check for a ban
reads and a contact sets.
-/

namespace Cryptex

open Encoding Intervals

namespace Peers

abbrev decayInterval : Int := Constants.peerScoreDecayIntervalSeconds

/-! ## The clock of a state -/

/-- A score after `k` intervals were counted. -/
def faded (score k : Int) : Int :=
  if k = 0 then score else max 0 (score - k * Constants.peerScoreDecayPoints)

theorem faded_faded (score : Int) {a b : Int} (ha : 0 ≤ a) (hb : 0 ≤ b) :
    faded (faded score a) b = faded score (a + b) := by
  simp only [faded, Constants.peerScoreDecayPoints]
  split <;> split <;> split <;> omega

/-- Counting fewer intervals than have passed makes no difference only if
those counted use up the score. -/
theorem faded_eq_iff {score counted passed : Int} (h0 : 0 ≤ counted) (hle : counted ≤ passed) :
    faded score counted = max 0 (score - passed * Constants.peerScoreDecayPoints) ↔
      (0 ≤ score ∨ 0 < counted) ∧
        (counted = passed ∨ score ≤ counted * Constants.peerScoreDecayPoints) := by
  simp only [faded, Constants.peerScoreDecayPoints]
  split <;> omega

namespace PeerState

/-- The score, and the time up to which it has fallen. -/
def clock (s : PeerState) : Int × Int := (s.score, s.lastUpdated)

end PeerState

/-- A clock after it was read. -/
def readClock (now : Int) (clock : Int × Int) : Int × Int :=
  let k := (now - clock.2) / decayInterval
  if now - clock.2 ≥ decayInterval then (faded clock.1 k, clock.2 + k * decayInterval) else clock

variable {policy : PeerPolicy} {label : Bytes} {now : Int} {s s' : PeerState}

theorem decayInterval_pos : 0 < decayInterval := by decide

theorem decay_clock (hs : 0 < s.lastUpdated) : (s.decay now).clock = readClock now s.clock := by
  rw [PeerState.decay, if_neg hs.ne']
  dsimp only
  by_cases h : now - s.lastUpdated ≥ Constants.peerScoreDecayIntervalSeconds
  · have hk : (now - s.lastUpdated) / decayInterval ≠ 0 := by
      have hone : 1 ≤ (now - s.lastUpdated) / decayInterval :=
        (Int.le_ediv_iff_mul_le decayInterval_pos).mpr (by rw [one_mul]; exact h)
      omega
    have hread : readClock now s.clock = (faded s.score ((now - s.lastUpdated) / decayInterval),
        s.lastUpdated + (now - s.lastUpdated) / decayInterval * decayInterval) := if_pos h
    rw [if_pos h, hread, faded, if_neg hk]
    split <;> rfl
  · have hread : readClock now s.clock = s.clock := if_neg h
    rw [if_neg h, hread]
    split <;> rfl

theorem fillNetgroup_clock (policy : PeerPolicy) (label : Bytes) (s : PeerState) :
    (s.fillNetgroup policy label).clock = s.clock :=
  Prod.ext (fillNetgroup_keepsStanding policy label s).1 (fillNetgroup_lastUpdated policy label s)

theorem recorded_clock (policy : PeerPolicy) (label source : Bytes) (now : Int)
    (hs : 0 < s.lastUpdated) : (s.recorded policy label source now).clock = s.clock := by
  refine Prod.ext (recorded_keepsStanding policy label source now s).1 ?_
  have hfill := fillNetgroup_lastUpdated policy label s
  change (s.recorded policy label source now).lastUpdated = s.lastUpdated
  rw [PeerState.recorded]
  split
  · rw [if_neg (by change ¬ (s.fillNetgroup policy label).lastUpdated = 0; omega)]
    exact hfill
  · rw [if_neg (by omega)]
    exact hfill

theorem considered_clock (policy : PeerPolicy) (label : Bytes) (hs : 0 < s.lastUpdated) :
    (s.considered policy label now).clock = readClock now s.clock := by
  have hfill := fillNetgroup_clock policy label s
  have hlast : (s.fillNetgroup policy label).lastUpdated = s.lastUpdated :=
    fillNetgroup_lastUpdated policy label s
  rw [PeerState.considered, PeerState.started, if_neg hs.ne', decay_clock (hlast ▸ hs), hfill]

theorem attempted_clock (policy : PeerPolicy) (label : Bytes) (now : Int) (s : PeerState) :
    (s.attempted policy label none now).clock = (s.score, now) := by
  have hscore := (fillNetgroup_keepsStanding policy label s).1
  rw [PeerState.attempted]
  split <;> exact Prod.ext hscore rfl

/-- Reading the clock twice at one time is reading it once. -/
theorem readClock_readClock (now : Int) (clock : Int × Int) :
    readClock now (readClock now clock) = readClock now clock := by
  by_cases h : now - clock.2 ≥ decayInterval
  · have hrest := Int.emod_lt_of_pos (now - clock.2) decayInterval_pos
    have hsplit := Int.mul_ediv_add_emod (now - clock.2) decayInterval
    have hread : readClock now clock = (faded clock.1 ((now - clock.2) / decayInterval),
        clock.2 + (now - clock.2) / decayInterval * decayInterval) := if_pos h
    rw [hread]
    refine if_neg ?_
    dsimp only
    rw [mul_comm] at hsplit
    omega
  · have hread : readClock now clock = clock := if_neg h
    rw [hread, hread]

theorem readClock_pos {clock : Int × Int} (h : 0 < clock.2) : 0 < (readClock now clock).2 := by
  rw [readClock]
  split
  · next hge =>
      have hk : 0 ≤ (now - clock.2) / decayInterval :=
        Int.ediv_nonneg (decayInterval_pos.le.trans hge) decayInterval_pos.le
      exact add_pos_of_pos_of_nonneg h (mul_nonneg hk decayInterval_pos.le)
  · exact h

/-! ## What an operation does to the clock of a label -/

/-- `connect_known_peers` may connect to the label. -/
def Connectable (policy : PeerPolicy) (active : List Bytes) (label : Bytes) : Prop :=
  ¬ (label = [] ∨ policy.isSelf label ∨ parseHostPort label policy.defaultP2pPort = none ∨
    label ∈ active)

instance (policy : PeerPolicy) (active : List Bytes) (label : Bytes) :
    Decidable (Connectable policy active label) :=
  inferInstanceAs (Decidable (¬ _))

/-- What the operation is for the clock of the label. -/
def PeerOp.beat (policy : PeerPolicy) (label : Bytes) : PeerOp → Option Beat
  | announced l _ => if l = label then some .set else none
  | greeted session version =>
      if (session.greeted policy.defaultP2pPort version).remoteLabel = label then some .set else none
  | attempted l _ => if l = label then some .set else none
  | connected l => if l = label then some .set else none
  | removed l => if l = label then some .set else none
  | banChecked l => if l = label then some .read else none
  | considered active labels =>
      if label ∈ labels ∧ Connectable policy active label then some .read else none
  | listed _ _ => some .read
  | _ => none

/-- The operation is no punishment of the label. -/
def PeerOp.Spares (label : Bytes) : PeerOp → Prop
  | attempted l failure => l = label → failure = none
  | punished l _ => l ≠ label
  | bannedByHand l _ => l ≠ label
  | bansCleared => False
  | _ => True

instance (label : Bytes) : ∀ op : PeerOp, Decidable (op.Spares label)
  | .attempted l failure => inferInstanceAs (Decidable (l = label → failure = none))
  | .punished l _ => inferInstanceAs (Decidable (l ≠ label))
  | .bannedByHand l _ => inferInstanceAs (Decidable (l ≠ label))
  | .bansCleared => inferInstanceAs (Decidable False)
  | .recorded _ _ | .announced _ _ | .greeted _ _ | .connected _ | .removed _ | .banChecked _
  | .considered _ _ | .listed _ _ => inferInstanceAs (Decidable True)

/-- What a beat does to the clock. -/
def beatClock (now : Int) (clock : Int × Int) : Option Beat → Int × Int
  | none => clock
  | some .set => (clock.1, now)
  | some .read => readClock now clock

namespace PeerStates

variable {states : PeerStates}

theorem lookup_modify (l : Bytes) (f : PeerState → PeerState) (hs : states.lookup label = some s) :
    (states.modify l f).lookup label = some (if l = label then f s else s) := by
  rw [modify, FinMap.lookup_insert_ite]
  split
  · next h => rw [← h, hs, if_pos rfl, Option.getD_some]
  · next h => rw [hs, if_neg (Ne.symm h)]

theorem lookup_recordPeerLabel (l source : Bytes) (hs : states.lookup label = some s)
    (hpos : 0 < s.lastUpdated) :
    ∃ s', (recordPeerLabel policy l source now states).lookup label = some s' ∧
      s'.clock = s.clock := by
  rw [recordPeerLabel]
  split
  · exact ⟨s, hs, rfl⟩
  · refine ⟨_, lookup_modify l _ hs, ?_⟩
    split
    · exact recorded_clock policy l source now hpos
    · rfl

/-- Only its own turn changes a label, and only if the node may connect to it. -/
theorem lookup_consider_of_skipped {active : List Bytes} {l : Bytes}
    (hs : states.lookup label = some s) (hskip : ¬ (l = label ∧ Connectable policy active label)) :
    (consider policy active now states l).lookup label = some s := by
  rw [consider]
  split
  · exact hs
  · next hopen =>
      rw [lookup_modify l _ hs, if_neg]
      rintro rfl
      exact hskip ⟨rfl, hopen⟩

theorem lookup_consider {active : List Bytes} (hs : states.lookup label = some s)
    (hopen : Connectable policy active label) :
    (consider policy active now states label).lookup label
      = some (s.considered policy label now) := by
  rw [consider, if_neg hopen, lookup_modify label _ hs, if_pos rfl]

theorem lookup_foldl_consider (active : List Bytes) (labels : List Bytes)
    (hs : states.lookup label = some s) (hpos : 0 < s.lastUpdated) :
    ∃ s', (labels.foldl (consider policy active now) states).lookup label = some s' ∧
      s'.clock = beatClock now s.clock ((PeerOp.considered active labels).beat policy label) := by
  rw [PeerOp.beat]
  induction labels generalizing states s with
  | nil => exact ⟨s, hs, by rw [if_neg (by simp)]; rfl⟩
  | cons l labels ih =>
      by_cases hturn : l = label ∧ Connectable policy active label
      · obtain ⟨rfl, hopen⟩ := hturn
        have hread : (s.considered policy l now).clock = _ := considered_clock policy l hpos
        have hpos₁ : 0 < (s.considered policy l now).lastUpdated := by
          change 0 < (s.considered policy l now).clock.2
          rw [hread]
          exact readClock_pos hpos
        obtain ⟨s', hs', hclock⟩ := ih (lookup_consider hs hopen) hpos₁
        refine ⟨s', hs', ?_⟩
        have hmem : l ∈ l :: labels ∧ Connectable policy active l := ⟨List.mem_cons_self, hopen⟩
        rw [hclock, hread, if_pos hmem]
        split
        · exact readClock_readClock now s.clock
        · rfl
      · obtain ⟨s', hs', hclock⟩ := ih (lookup_consider_of_skipped hs hturn) hpos
        refine ⟨s', hs', hclock.trans ?_⟩
        have hmem : (label ∈ l :: labels ∧ Connectable policy active label) ↔
            label ∈ labels ∧ Connectable policy active label := by
          rw [List.mem_cons]
          constructor
          · rintro ⟨rfl | hin, hopen⟩
            · exact absurd ⟨rfl, hopen⟩ hturn
            · exact ⟨hin, hopen⟩
          · exact fun h => ⟨.inr h.1, h.2⟩
        simp only [hmem]

theorem lookup_ensure (l : Bytes) (hs : states.lookup label = some s) :
    (ensure policy now states l).lookup label = some s := by
  rw [ensure]
  split
  · exact hs
  · next hmem =>
      have hne : label ≠ l := by
        rintro rfl
        exact hmem (Finmap.mem_of_lookup_eq_some hs)
      rw [Finmap.lookup_insert_of_ne _ hne, hs]

theorem lookup_foldl_ensure (hs : states.lookup label = some s) (labels : List Bytes) :
    (labels.foldl (ensure policy now) states).lookup label = some s := by
  induction labels generalizing states with
  | nil => exact hs
  | cons l labels ih => exact ih (lookup_ensure l hs)

end PeerStates

theorem beatClock_pos {clock : Int × Int} (hclock : 0 < clock.2) (hnow : 0 < now)
    (beat : Option Beat) : 0 < (beatClock now clock beat).2 := by
  cases beat with
  | none => exact hclock
  | some b =>
      cases b with
      | read => exact readClock_pos hclock
      | set => exact hnow

theorem connected_clock (policy : PeerPolicy) (label : Bytes) (now : Int) (s : PeerState) :
    (s.connected policy label now).clock = (s.score, now) :=
  Prod.ext (fillNetgroup_keepsStanding policy label s).1 rfl

theorem heightNoted_clock (policy : PeerPolicy) (label : Bytes) (height : UInt32) (now : Int)
    (s : PeerState) : (s.heightNoted policy label height now).clock = (s.score, now) :=
  Prod.ext (heightNoted_keepsStanding policy label height now s).1 rfl

theorem greeted_clock (policy : PeerPolicy) (label : Bytes) (height : UInt32) (now : Int)
    (s : PeerState) : (s.greeted policy label height now).clock = (s.score, now) :=
  Prod.ext (greeted_keepsStanding policy label height now s).1 rfl

theorem removed_clock (policy : PeerPolicy) (label : Bytes) (now : Int) (s : PeerState) :
    (s.removed policy label now).clock = (s.score, now) :=
  Prod.ext (removed_keepsStanding policy label now s).1 rfl

namespace PeerStates

variable {states : PeerStates}

/-- A contact sets the clock of its own label. -/
theorem lookup_contact (l : Bytes) {f : PeerState → PeerState}
    (hf : (f s).clock = (s.score, now)) (hs : states.lookup label = some s) :
    ∃ s', (states.modify l f).lookup label = some s' ∧
      s'.clock = beatClock now s.clock (if l = label then some .set else none) := by
  refine ⟨_, lookup_modify l f hs, ?_⟩
  split
  · exact hf
  · rfl

theorem lookup_greet (session : PeerSession) (version : VersionPayload)
    (hs : states.lookup label = some s) (hpos : 0 < s.lastUpdated) :
    ∃ s', (greet policy session version now states).lookup label = some s' ∧
      s'.clock = beatClock now s.clock ((PeerOp.greeted session version).beat policy label) := by
  -- after the label that the version names is recorded, if there is one
  have hgreeted : ∀ {recorded : PeerStates} (l : Bytes),
      (∃ s₁, recorded.lookup label = some s₁ ∧ s₁.clock = s.clock) →
      ∃ s', ((recorded.modify l (PeerState.heightNoted policy l version.bestHeight now)).modify l
          (PeerState.greeted policy l version.bestHeight now)).lookup label = some s' ∧
        s'.clock = beatClock now s.clock (if l = label then some .set else none) := by
    rintro recorded l ⟨s₁, hs₁, hclock₁⟩
    have hscore : s₁.score = s.score := congrArg Prod.fst hclock₁
    obtain ⟨s₂, hs₂, hclock₂⟩ := lookup_contact l
      (heightNoted_clock policy l version.bestHeight now s₁) hs₁
    refine ⟨_, lookup_modify _ _ hs₂, ?_⟩
    split
    · next hlabel =>
        rw [if_pos hlabel] at hclock₂
        have hscore₂ : s₂.score = s₁.score := congrArg Prod.fst hclock₂
        rw [greeted_clock, hscore₂, hscore]
        rfl
    · next hlabel =>
        rw [if_neg hlabel] at hclock₂
        exact hclock₂.trans hclock₁
  rw [greet, PeerOp.beat]
  refine hgreeted _ ?_
  split
  · exact lookup_recordPeerLabel _ _ hs hpos
  · exact ⟨s, hs, rfl⟩

theorem lookup_isBanned (l : Bytes) (hlabel : label ≠ []) (hs : states.lookup label = some s)
    (hpos : 0 < s.lastUpdated) :
    ∃ s', (isBanned l now states).2.lookup label = some s' ∧
      s'.clock = beatClock now s.clock (if l = label then some .read else none) := by
  rw [isBanned]
  by_cases hl : l = label
  · subst hl
    rw [if_neg hlabel, hs, if_pos rfl]
    exact ⟨_, Finmap.lookup_insert _, decay_clock hpos⟩
  · rw [if_neg hl]
    split
    · exact ⟨s, hs, rfl⟩
    · refine ⟨s, ?_, rfl⟩
      split
      · exact hs
      · rw [Finmap.lookup_insert_of_ne _ (Ne.symm hl), hs]

theorem lookup_list (connected known : List Bytes) (hs : states.lookup label = some s)
    (hpos : 0 < s.lastUpdated) :
    ∃ s', (list policy connected known now states).lookup label = some s' ∧
      s'.clock = readClock now s.clock := by
  refine ⟨s.decay now, ?_, decay_clock hpos⟩
  rw [list, FinMap.lookup_mapValues, lookup_foldl_ensure (lookup_foldl_ensure hs connected) known,
    Option.map_some]

end PeerStates

/-- The clock of a label that is spared goes on as the beat of the operation
says. -/
theorem PeerOp.run_clock {op : PeerOp} (hop : op.Spares label) (hlabel : label ≠ [])
    {states : PeerStates} (hs : states.lookup label = some s) (hpos : 0 < s.lastUpdated) :
    ∃ s', (op.run policy now states).lookup label = some s' ∧
      s'.clock = beatClock now s.clock (op.beat policy label) := by
  cases op with
  | recorded l source => exact PeerStates.lookup_recordPeerLabel l source.text hs hpos
  | announced l height =>
      exact PeerStates.lookup_contact l (heightNoted_clock policy l height now s) hs
  | greeted session version => exact PeerStates.lookup_greet session version hs hpos
  | attempted l failure =>
      rw [run, beat]
      split
      · next hnil =>
          have hl : l ≠ label := fun h => hlabel (h.symm.trans hnil)
          rw [if_neg hl]
          exact ⟨s, hs, rfl⟩
      · by_cases hl : l = label
        · rw [hop hl]
          exact PeerStates.lookup_contact l (attempted_clock policy l now s) hs
        · rw [if_neg hl]
          exact ⟨s, by rw [PeerStates.lookup_modify l _ hs, if_neg hl], rfl⟩
  | connected l =>
      rw [run, beat]
      split
      · next hnil =>
          have hl : l ≠ label := fun h => hlabel (h.symm.trans hnil)
          rw [if_neg hl]
          exact ⟨s, hs, rfl⟩
      · exact PeerStates.lookup_contact l (connected_clock policy l now s) hs
  | removed l => exact PeerStates.lookup_contact l (removed_clock policy l now s) hs
  | banChecked l => exact PeerStates.lookup_isBanned l hlabel hs hpos
  | considered active labels => exact PeerStates.lookup_foldl_consider active labels hs hpos
  | listed connectedLabels known => exact PeerStates.lookup_list connectedLabels known hs hpos
  | punished l penalty =>
      refine ⟨s, ?_, rfl⟩
      rw [run, PeerStates.punishLabel]
      split
      · exact hs
      · rw [PeerStates.lookup_modify l _ hs, if_neg hop]
  | bannedByHand l durationSeconds =>
      refine ⟨s, ?_, rfl⟩
      rw [run]
      split
      · exact hs
      · rw [PeerStates.lookup_modify l _ hs, if_neg hop]
  | bansCleared => exact hop.elim

/-! ## Runs -/

/-- The beats that operations are for the clock of the label. -/
def beatsOf (policy : PeerPolicy) (label : Bytes) (ops : List (Int × PeerOp)) :
    List (Int × Beat) :=
  ops.filterMap fun op => (op.2.beat policy label).map (op.1, ·)

/-- A state whose score was `score` when its clock began. -/
structure Fading (score : Int) (c : Tally) (s : PeerState) : Prop where
  inOrder : c.InOrder
  pos : 0 < s.lastUpdated
  clock : s.clock = (faded score (c.total decayInterval), c.base decayInterval)

theorem readClock_eq {score base : Int} (h : base ≤ now) :
    readClock now (score, base) = (faded score ((now - base) / decayInterval),
      base + (now - base) / decayInterval * decayInterval) := by
  rw [readClock]
  split
  · rfl
  · next hlt =>
      have hzero : (now - base) / decayInterval = 0 :=
        Int.ediv_eq_zero_of_lt (sub_nonneg.mpr h) (not_le.mp hlt)
      rw [hzero, zero_mul, add_zero]
      rfl

/-- One beat: the state goes on as the tally does. -/
theorem Fading.beat {score : Int} {c : Tally} (h : Fading score c s) (hnow : c.last ≤ now)
    (b : Beat) (hs' : s'.clock = beatClock now s.clock (some b)) :
    Fading score (c.beat decayInterval now b) s' := by
  have hbase : s.lastUpdated = c.base decayInterval := congrArg Prod.snd h.clock
  have hle : c.base decayInterval ≤ now := (Tally.base_le decayInterval_pos c).trans hnow
  refine ⟨h.inOrder.beat decayInterval_pos hnow b, ?_, ?_⟩
  · change 0 < s'.clock.2
    rw [hs']
    exact beatClock_pos h.pos (h.pos.trans_le (hbase ▸ hle)) _
  · rw [hs', h.clock]
    cases b with
    | read =>
        have hk : 0 ≤ (now - c.base decayInterval) / decayInterval :=
          Int.ediv_nonneg (sub_nonneg.mpr hle) decayInterval_pos.le
        rw [Tally.total_read decayInterval_pos, Tally.base_read decayInterval_pos,
          ← faded_faded _ (Tally.total_nonneg decayInterval_pos h.inOrder) hk]
        exact readClock_eq hle
    | set => rw [Tally.total_set, Tally.base_set]; rfl

theorem within_beatsOf (policy : PeerPolicy) (label : Bytes) : ∀ {ops : List (Int × PeerOp)}
    {t t' : Int}, Tally.Within t ops t' → Tally.Within t (beatsOf policy label ops) t'
  | [], _, _, h => h
  | op :: ops, t, t', h => by
      have hrest := within_beatsOf policy label h.2
      rw [beatsOf, List.filterMap_cons]
      cases op.2.beat policy label with
      | none => exact Tally.Within.mono h.1 hrest
      | some b => exact ⟨h.1, hrest⟩

/-- After a run the state has gone on as the tally of its beats. -/
theorem Fading.run {score : Int} (hlabel : label ≠ []) : ∀ {ops : List (Int × PeerOp)} {c : Tally}
    {s : PeerState} {states : PeerStates} {t' : Int}, Fading score c s →
    states.lookup label = some s → Tally.Within c.last ops t' → (∀ op ∈ ops, op.2.Spares label) →
    ∃ s', (runOps policy states ops).lookup label = some s' ∧
      Fading score (c.after decayInterval (beatsOf policy label ops)) s' ∧
      (c.after decayInterval (beatsOf policy label ops)).last ≤ t'
  | [], c, s, states, t', h, hs, htimes, _ => ⟨s, hs, h, htimes⟩
  | op :: ops, c, s, states, t', h, hs, htimes, hspares => by
      obtain ⟨s₁, hs₁, hclock⟩ := PeerOp.run_clock 
        (hspares op List.mem_cons_self) hlabel hs h.pos
      have hrest : ∀ op' ∈ ops, op'.2.Spares label :=
        fun op' hmem => hspares op' (List.mem_cons_of_mem _ hmem)
      rw [runOps, List.foldl_cons, ← runOps, beatsOf, List.filterMap_cons]
      cases hbeat : op.2.beat policy label with
      | none =>
          rw [hbeat] at hclock
          have hpos : s₁.lastUpdated = s.lastUpdated := congrArg Prod.snd hclock
          exact Fading.run hlabel ⟨h.inOrder, hpos ▸ h.pos, hclock.trans h.clock⟩ hs₁
            (Tally.Within.mono htimes.1 htimes.2) hrest
      | some b =>
          rw [hbeat] at hclock
          have hnext := h.beat htimes.1 b hclock
          exact Fading.run hlabel hnext hs₁ (by rw [Tally.last_beat]; exact htimes.2) hrest

/-- The score of the label that is read after decay. -/
def PeerStates.scoreAt (states : PeerStates) (label : Bytes) (now : Int) : Int :=
  (((states.lookup label).getD {}).decay now).score

/-- The whole intervals that are counted from `t₀` to `t₁`: those between a
contact and the last reading before the next contact. -/
def countedIntervals (policy : PeerPolicy) (label : Bytes) (t₀ : Int) (ops : List (Int × PeerOp))
    (t₁ : Int) : Int :=
  (((Tally.begun t₀).after decayInterval (beatsOf policy label ops)).beat decayInterval t₁
    .read).total decayInterval

variable {states : PeerStates} {penalty : Penalty} {t₀ t₁ : Int} {ops : List (Int × PeerOp)}

/-- A punishment starts the clock. -/
theorem fading_punished (policy : PeerPolicy) (label : Bytes) (penalty : Penalty) (h₀ : 0 < t₀)
    (s : PeerState) : Fading (s.punished policy label penalty t₀).score (Tally.begun t₀)
      (s.punished policy label penalty t₀) := by
  have hlast : (s.punished policy label penalty t₀).lastUpdated = t₀ := (charged_fields _ _ _ _).2
  refine ⟨Tally.inOrder_begun t₀, by rw [hlast]; exact h₀, ?_⟩
  rw [Tally.total_begun, Tally.base_begun]
  exact Prod.ext rfl hlast

/-- The score that is read is the one of the punishment, less the intervals
that were counted. -/
theorem scoreAt_run (hlabel : label ≠ []) (h₀ : 0 < t₀) (htimes : Tally.Within t₀ ops t₁)
    (hspares : ∀ op ∈ ops, op.2.Spares label) :
    (runOps policy (PeerStates.punishLabel policy label penalty t₀ states) ops).scoreAt label t₁
      = faded ((PeerStates.punishLabel policy label penalty t₀ states).standing label).1
          (countedIntervals policy label t₀ ops t₁) := by
  have hpunished : (PeerStates.punishLabel policy label penalty t₀ states).lookup label = some _ :=
    PeerStates.lookup_punishLabel hlabel policy penalty t₀
  obtain ⟨s, hs, hfading, hlast⟩ :=
    (fading_punished policy label penalty h₀ _).run hlabel hpunished htimes hspares
  have hread := hfading.beat hlast .read (decay_clock hfading.pos)
  rw [PeerStates.scoreAt, hs, PeerStates.standing, hpunished]
  exact congrArg Prod.fst hread.clock

theorem countedIntervals_nonneg (htimes : Tally.Within t₀ ops t₁) :
    0 ≤ countedIntervals policy label t₀ ops t₁ := by
  have hafter := (Tally.inOrder_begun t₀).after decayInterval_pos (within_beatsOf policy label htimes)
  exact Tally.total_nonneg decayInterval_pos (hafter.1.beat decayInterval_pos hafter.2 .read)

theorem countedIntervals_le (htimes : Tally.Within t₀ ops t₁) :
    countedIntervals policy label t₀ ops t₁ ≤ (t₁ - t₀) / decayInterval :=
  Tally.total_le decayInterval_pos (by rw [Tally.total_begun, Tally.base_begun]; simp)
    (within_beatsOf policy label htimes)

/-- The score has fallen by all intervals that have passed if and only if all
were counted, or those that were counted use it up. -/
theorem score_decays_iff (policy : PeerPolicy) (states : PeerStates) (label : Bytes)
    (penalty : Penalty) (t₀ t₁ : Int) (ops : List (Int × PeerOp)) (hlabel : label ≠ [])
    (h₀ : 0 < t₀) (htimes : Tally.Within t₀ ops t₁) (hspares : ∀ op ∈ ops, op.2.Spares label) :
    let punished := PeerStates.punishLabel policy label penalty t₀ states
    let score := (punished.standing label).1
    let passed := (t₁ - t₀) / Constants.peerScoreDecayIntervalSeconds
    let counted := countedIntervals policy label t₀ ops t₁
    (runOps policy punished ops).scoreAt label t₁
        = max 0 (score - passed * Constants.peerScoreDecayPoints) ↔
      (0 ≤ score ∨ 0 < counted) ∧
        (counted = passed ∨ score ≤ counted * Constants.peerScoreDecayPoints) := by
  intro punished score passed counted
  rw [scoreAt_run hlabel h₀ htimes hspares]
  exact faded_eq_iff (countedIntervals_nonneg htimes) (countedIntervals_le htimes)

/-- Between contacts with the label there is less than an interval. -/
def Busy (policy : PeerPolicy) (label : Bytes) (t₀ : Int) (ops : List (Int × PeerOp)) (t₁ : Int) :
    Prop :=
  Tally.Hurried decayInterval t₀ (beatsOf policy label ops) t₁

/-- The score of a busy peer does not fall, however long that goes on. -/
theorem scoreAt_busy (hlabel : label ≠ []) (h₀ : 0 < t₀) (htimes : Tally.Within t₀ ops t₁)
    (hspares : ∀ op ∈ ops, op.2.Spares label) (hbusy : Busy policy label t₀ ops t₁) :
    (runOps policy (PeerStates.punishLabel policy label penalty t₀ states) ops).scoreAt label t₁
      = ((PeerStates.punishLabel policy label penalty t₀ states).standing label).1 := by
  have hcounted : countedIntervals policy label t₀ ops t₁ = 0 :=
    Tally.total_hurried decayInterval_pos (Tally.inOrder_begun t₀)
      (within_beatsOf policy label htimes) hbusy
  rw [scoreAt_run hlabel h₀ htimes hspares, hcounted]
  rfl

/-- Without a contact the score falls by all intervals that have passed. -/
theorem scoreAt_untouched (hlabel : label ≠ []) (h₀ : 0 < t₀) (htimes : Tally.Within t₀ ops t₁)
    (hspares : ∀ op ∈ ops, op.2.Spares label)
    (hread : ∀ op ∈ ops, op.2.beat policy label ≠ some .set) :
    (runOps policy (PeerStates.punishLabel policy label penalty t₀ states) ops).scoreAt label t₁
      = faded ((PeerStates.punishLabel policy label penalty t₀ states).standing label).1
          ((t₁ - t₀) / decayInterval) := by
  have hreads : ∀ b ∈ beatsOf policy label ops, b.2 = .read := by
    intro b hb
    obtain ⟨op, hop, hmap⟩ := List.mem_filterMap.mp hb
    obtain ⟨beat, hbeat, rfl⟩ := Option.map_eq_some_iff.mp hmap
    cases beat with
    | read => rfl
    | set => exact absurd hbeat (hread op hop)
  rw [scoreAt_run hlabel h₀ htimes hspares, countedIntervals,
    Tally.total_reads decayInterval_pos hreads]
  exact congrArg (faded _) (zero_add _)

/-- A peer is checked and listed, and has no contact. -/
theorem score_decays_checked :
    (runOps samplePolicy
      (PeerStates.punishLabel samplePolicy (chars "10.0.0.1:9000") ⟨20, []⟩ 1000 ∅)
      [(3000, .banChecked (chars "10.0.0.1:9000")), (4000, .listed [] [])]).scoreAt
        (chars "10.0.0.1:9000") 4700
      = max 0 (((PeerStates.punishLabel samplePolicy (chars "10.0.0.1:9000") ⟨20, []⟩ 1000
          ∅).standing (chars "10.0.0.1:9000")).1 - 2 * Constants.peerScoreDecayPoints) :=
  (score_decays_iff samplePolicy ∅ (chars "10.0.0.1:9000") ⟨20, []⟩ 1000 4700
    [(3000, .banChecked (chars "10.0.0.1:9000")), (4000, .listed [] [])] (by decide)
    (by decide) (by decide) (by decide)).mpr (by decide)

/-- A peer that is punished once and announces a height every half interval. -/
def busyPeer : List (Int × PeerOp) :=
  [1900, 2800, 3700, 4600].map fun t => (t, .announced (chars "10.0.0.1:9000") 7)

/-- After two whole intervals the score is what it was. -/
theorem not_score_decays : ¬ ∀ (policy : PeerPolicy) (states : PeerStates) (label : Bytes)
    (penalty : Penalty) (t₀ t₁ : Int) (ops : List (Int × PeerOp)), label ≠ [] → 0 < t₀ →
    Tally.Within t₀ ops t₁ → (∀ op ∈ ops, op.2.Spares label) →
    let punished := PeerStates.punishLabel policy label penalty t₀ states
    let score := (punished.standing label).1
    let passed := (t₁ - t₀) / Constants.peerScoreDecayIntervalSeconds
    (runOps policy punished ops).scoreAt label t₁
      = max 0 (score - passed * Constants.peerScoreDecayPoints) := by
  intro hall
  have h := hall samplePolicy ∅ (chars "10.0.0.1:9000") ⟨10, []⟩ 1000 4600 busyPeer
    (by decide) (by decide) (by decide) (by decide)
  exact absurd h (by decide)

end Peers

end Cryptex
