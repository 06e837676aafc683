import Cryptex.Network.PeerOps
import Cryptex.Network.TextInput

/-!
# The file of the peer states

`save_peer_state` and `load_peer_state`. The writer puts a tab between fields;
the reader takes the label up to a tab, then numbers and words with any white
space between, and the rest of the line as the reason.
-/

namespace Cryptex

open Encoding Mail TextInput TextLines

namespace Peers

/-! ## Writing -/

namespace PeerState

/-- A state that is not worth a line. -/
def idle (s : PeerState) : Bool :=
  s.score = 0 && s.bannedUntil = 0 && s.successfulConnections = 0 && s.failedConnections = 0 &&
    s.invalidMessages = 0 && s.lastSeen = 0 && s.lastConnected = 0 && s.lastReason = []

/-- The line of a label. -/
def line (label : Bytes) (s : PeerState) : Bytes :=
  joinFields [label, intText s.score, intText s.bannedUntil, intText s.lastUpdated,
    intText s.lastSeen, intText s.lastConnected, decimal s.successfulConnections.toNat,
    decimal s.failedConnections.toNat, decimal s.invalidMessages.toNat,
    decimal s.lastAnnouncedHeight.toNat, s.source, s.netgroup, s.lastReason]

end PeerState

def savedEntries (order : FinMap.VisitOrder Bytes PeerState) (states : PeerStates) :
    List (Bytes × PeerState) :=
  (order.visit states).filter fun entry => !entry.2.idle

/-- `save_peer_state`: the file that it writes. -/
def savePeerState (order : FinMap.VisitOrder Bytes PeerState) (states : PeerStates) : Bytes :=
  putLines 10 ((savedEntries order states).map fun entry => entry.2.line entry.1)

/-! ## Reading -/

/-- One line of `load_peer_state`. -/
def readPeerState (policy : PeerPolicy) (line : Bytes) : Option (Bytes × PeerState) :=
  if line = [] then none
  else
    let label := line.takeWhile (· ≠ 9)
    let score := extractInt 32 (some (line.dropWhile (· ≠ 9)).tail)
    let bannedUntil := extractInt 64 score.2
    let lastUpdated := extractInt 64 bannedUntil.2
    if lastUpdated.2 = none then none
    else
      let lastSeen := extractInt 64 lastUpdated.2
      let lastConnected := extractInt 64 lastSeen.2
      let successful := extractNat 64 lastConnected.2
      let failed := extractNat 64 successful.2
      let invalid := extractNat 64 failed.2
      let height := extractNat 32 invalid.2
      let source := extractWord (chars "peer") height.2
      let netgroup := extractWord [] source.2
      some (label,
        { score := score.1
          bannedUntil := bannedUntil.1
          lastUpdated := lastUpdated.1
          lastSeen := lastSeen.1
          lastConnected := lastConnected.1
          successfulConnections := UInt64.ofNat successful.1
          failedConnections := UInt64.ofNat failed.1
          invalidMessages := UInt64.ofNat invalid.1
          lastAnnouncedHeight := UInt32.ofNat height.1
          source := if source.1 = [] then chars "peer" else source.1
          netgroup := if netgroup.1 = [] then policy.netgroup label else netgroup.1
          lastReason := extractRest netgroup.2 })

/-- `load_peer_state` of a node that starts. -/
def loadPeerState (policy : PeerPolicy) (file : Bytes) : PeerStates :=
  FinMap.insertAll ∅ ((getLines 10 file).filterMap (readPeerState policy))

/-! ## What a line gives -/

/-- The numbers are such as their variables can hold. -/
structure PeerState.Fits (s : PeerState) : Prop where
  score : FitsInt 32 s.score
  bannedUntil : FitsInt 64 s.bannedUntil
  lastUpdated : FitsInt 64 s.lastUpdated
  lastSeen : FitsInt 64 s.lastSeen
  lastConnected : FitsInt 64 s.lastConnected

/-- What is read of the line of a state: the group ends at its first white
space, and what follows goes to the reason. -/
def PeerState.reread (s : PeerState) : PeerState :=
  { s with
    netgroup := s.netgroup.takeWhile isWordByte
    lastReason := (s.netgroup.dropWhile isWordByte ++ 9 :: s.lastReason).dropWhile isSpace }

theorem joinFields_cons_cons (field next : Bytes) (rest : List Bytes) :
    joinFields (field :: next :: rest) = field ++ 9 :: joinFields (next :: rest) := by
  rw [joinFields, List.intercalate_cons_cons, List.append_assoc, List.singleton_append, joinFields]

theorem joinFields_singleton (field : Bytes) : joinFields [field] = field :=
  List.intercalate_singleton

theorem readPeerState_line (policy : PeerPolicy) {label : Bytes} {s : PeerState}
    (htab : (9 : UInt8) ∉ label) (hfits : s.Fits) (hsource : IsWord s.source)
    (hnet : Opens s.netgroup) :
    readPeerState policy (s.line label) = some (label, s.reread) := by
  have hstops : ∀ rest : Bytes, ∀ ch ∈ ((9 : UInt8) :: rest).head?, isDigit ch = false := by
    intro rest ch hch
    cases hch
    rfl
  have hint : ∀ w text, extractInt w (some (9 :: text)) = extractInt w (some text) :=
    extractInt_space rfl
  have hnat : ∀ w text, extractNat w (some (9 :: text)) = extractNat w (some text) :=
    extractNat_space rfl
  have hword : ∀ kept text, extractWord kept (some (9 :: text)) = extractWord kept (some text) :=
    extractWord_space rfl
  have hlabel : ∀ ch ∈ label, decide (ch ≠ 9) = true := fun ch hch =>
    decide_eq_true fun h => htab (h ▸ hch)
  have htake : ∀ rest : Bytes, (label ++ 9 :: rest).takeWhile (· ≠ 9) = label := fun rest => by
    rw [List.takeWhile_append_of_pos hlabel]
    exact List.append_nil label
  have hdrop : ∀ rest : Bytes, ((label ++ 9 :: rest).dropWhile (· ≠ 9)).tail = rest := fun rest => by
    rw [List.dropWhile_append_of_pos hlabel]
    rfl
  have hnil : ∀ rest : Bytes, label ++ 9 :: rest ≠ [] := fun rest =>
    List.append_ne_nil_of_right_ne_nil _ (List.cons_ne_nil _ _)
  have hnetword : s.netgroup.takeWhile isWordByte ≠ [] := by
    obtain ⟨ch, rest, hcons, hspace⟩ := hnet
    rw [hcons, List.takeWhile_cons_of_pos (by rw [isWordByte, hspace]; rfl)]
    exact List.cons_ne_nil _ _
  rw [readPeerState, PeerState.line]
  simp only [joinFields_cons_cons, hnil, htake, hdrop, hint, hnat, hword,
    extractInt_text hfits.score (hstops _), extractInt_text hfits.bannedUntil (hstops _),
    extractInt_text hfits.lastUpdated (hstops _), extractInt_text hfits.lastSeen (hstops _),
    extractInt_text hfits.lastConnected (hstops _),
    extractNat_text s.successfulConnections.toNat_lt (hstops _),
    extractNat_text s.failedConnections.toNat_lt (hstops _),
    extractNat_text s.invalidMessages.toNat_lt (hstops _),
    extractNat_text s.lastAnnouncedHeight.toNat_lt (hstops _), extractWord_tab _ hsource,
    extractWord_opens _ hnet, joinFields_singleton, hsource.ne_nil, hnetword, if_false, reduceCtorEq,
    UInt64.ofNat_toNat, UInt32.ofNat_toNat]
  rfl

/-! ## What any line gives -/

/-- What holds of the texts of a state: its source is a word, its group is the
one of its label unless it was read from a file. -/
structure Sound (policy : PeerPolicy) (label : Bytes) (s : PeerState) : Prop where
  source : IsWord s.source
  netgroup : IsWord s.netgroup ∨ s.netgroup = policy.netgroup label

/-- What holds of the texts of a state that was read. -/
structure Loaded (policy : PeerPolicy) (label : Bytes) (s : PeerState) : Prop
    extends Sound policy label s where
  label : ∀ ch ∈ label, ch ≠ 9 ∧ ch ≠ 10
  opens : ∀ ch ∈ s.lastReason.head?, isSpace ch = false
  reason : (10 : UInt8) ∉ s.lastReason

variable {policy : PeerPolicy} {label line : Bytes} {s : PeerState}

theorem readPeerState_loaded (h : readPeerState policy line = some (label, s))
    (hline : (10 : UInt8) ∉ line) : Loaded policy label s := by
  have hstart : EndsIn line (some (line.dropWhile (· ≠ 9)).tail) := by
    intro rest hrest
    cases hrest
    exact (List.tail_suffix _).trans (List.dropWhile_suffix _)
  have hwordPeer : IsWord (chars "peer") := by decide
  simp only [readPeerState] at h
  split at h
  · cases h
  · split at h
    · cases h
    · cases h
      have hheight := ((((((((hstart.extractInt 32).extractInt 64).extractInt 64).extractInt
        64).extractInt 64).extractNat 64).extractNat 64).extractNat 64).extractNat 32
      have hreason := extractRest_spec ((hheight.extractWord (chars "peer")).extractWord [])
      refine ⟨⟨?_, ?_⟩, fun ch hch => ⟨?_, ?_⟩, hreason.1, fun hmem => hline (hreason.2 10 hmem)⟩
      · dsimp only
        split
        · exact hwordPeer
        · next hne =>
            obtain hkept | hword := extractWord_fst (chars "peer") _
            · rw [hkept]
              exact hwordPeer
            · exact hword
      · dsimp only
        split
        · exact .inr rfl
        · next hne => exact .inl ((extractWord_fst [] _).resolve_left hne)
      · have hne := List.mem_takeWhile_imp hch
        exact of_decide_eq_true hne
      · rintro rfl
        exact hline ((List.takeWhile_prefix _).subset hch)

theorem loadPeerState_loaded {file : Bytes}
    (h : (loadPeerState policy file).lookup label = some s) : Loaded policy label s := by
  obtain hmem | hnone := FinMap.mem_of_lookup_insertAll h
  · obtain ⟨line, hline, hread⟩ := List.mem_filterMap.mp hmem
    exact readPeerState_loaded hread (notMem_of_mem_getLines hline)
  · rw [Finmap.lookup_empty] at hnone
    cases hnone

/-! ## What the operations keep -/

/-- The change fills in a missing group, and any source that it writes is a
word. -/
structure Fills (policy : PeerPolicy) (label : Bytes) (f : PeerState → PeerState) : Prop where
  source : ∀ s, IsWord s.source → IsWord (f s).source
  netgroup : ∀ s, (f s).netgroup = (s.fillNetgroup policy label).netgroup

/-- The change leaves source and group as they are. -/
def KeepsTexts (f : PeerState → PeerState) : Prop :=
  ∀ s, (f s).source = s.source ∧ (f s).netgroup = s.netgroup

theorem isWord_source (source : PeerSource) : IsWord source.text := by
  cases source <;> decide

theorem decay_keepsTexts (now : Int) : KeepsTexts (PeerState.decay now) := fun s => by
  rw [PeerState.decay]
  split
  · exact ⟨rfl, rfl⟩
  · dsimp only
    split <;> split <;> exact ⟨rfl, rfl⟩

theorem cleared_keepsTexts (now : Int) : KeepsTexts (PeerState.cleared now) := fun _ => ⟨rfl, rfl⟩

theorem started_keepsTexts (now : Int) : KeepsTexts (PeerState.started now) := fun s => by
  rw [PeerState.started]
  split <;> exact ⟨rfl, rfl⟩

theorem charged_keepsTexts (policy : PeerPolicy) (penalty : Penalty) (now : Int) :
    KeepsTexts (PeerState.charged policy penalty now) := fun s => by
  rw [PeerState.charged]
  dsimp only
  split <;> exact ⟨rfl, rfl⟩

theorem fillNetgroup_source (policy : PeerPolicy) (label : Bytes) (s : PeerState) :
    (s.fillNetgroup policy label).source = s.source := by
  rw [PeerState.fillNetgroup]
  split <;> rfl

theorem fillNetgroup_fills (policy : PeerPolicy) (label : Bytes) :
    Fills policy label (PeerState.fillNetgroup policy label) :=
  ⟨fun s h => by rw [fillNetgroup_source]; exact h, fun _ => rfl⟩

theorem Fills.before {f g : PeerState → PeerState} (hf : Fills policy label f)
    (hg : KeepsTexts g) : Fills policy label fun s => g (f s) :=
  ⟨fun s h => by rw [(hg _).1]; exact hf.source s h,
    fun s => by rw [(hg _).2]; exact hf.netgroup s⟩

theorem Fills.after {f g : PeerState → PeerState} (hf : Fills policy label f)
    (hg : KeepsTexts g) : Fills policy label fun s => f (g s) := by
  refine ⟨fun s h => hf.source _ (by rw [(hg s).1]; exact h), fun s => ?_⟩
  rw [hf.netgroup, PeerState.fillNetgroup, PeerState.fillNetgroup, (hg s).2]
  split
  · rfl
  · exact (hg s).2

theorem recorded_fills (policy : PeerPolicy) (label : Bytes) (source : PeerSource) (now : Int) :
    Fills policy label (PeerState.recorded policy label source.text now) := by
  refine ⟨fun s h => ?_, fun s => ?_⟩
  · rw [← fillNetgroup_source policy label s] at h
    rw [PeerState.recorded]
    split
    · split <;> exact isWord_source source
    · split <;> exact h
  · rw [PeerState.recorded]
    split <;> split <;> rfl

/-- A source is written only where there is none. -/
theorem isWord_default {source written : Bytes} (h : IsWord source) :
    IsWord (if source = [] then written else source) := by
  rw [if_neg h.ne_nil]
  exact h

theorem heightNoted_fills (policy : PeerPolicy) (label : Bytes) (height : UInt32) (now : Int) :
    Fills policy label (PeerState.heightNoted policy label height now) :=
  ⟨fun s h => isWord_default (fillNetgroup_source policy label s ▸ h), fun _ => rfl⟩

theorem greeted_fills (policy : PeerPolicy) (label : Bytes) (height : UInt32) (now : Int) :
    Fills policy label (PeerState.greeted policy label height now) :=
  ⟨fun s h => isWord_default (fillNetgroup_source policy label s ▸ h), fun _ => rfl⟩

theorem attempted_fills (policy : PeerPolicy) (label : Bytes) (failure : Option Bytes)
    (now : Int) : Fills policy label (PeerState.attempted policy label failure now) := by
  refine ⟨fun s h => ?_, fun s => ?_⟩
  · rw [← fillNetgroup_source policy label s] at h
    cases failure with
    | none =>
        rw [PeerState.attempted]
        dsimp only
        rw [if_neg h.ne_nil]
        exact h
    | some reason => exact h
  · cases failure with
    | none =>
        rw [PeerState.attempted]
        split <;> rfl
    | some reason => rfl

theorem connected_fills (policy : PeerPolicy) (label : Bytes) (now : Int) :
    Fills policy label (PeerState.connected policy label now) :=
  ⟨(fillNetgroup_fills policy label).source, fun _ => rfl⟩

theorem removed_fills (policy : PeerPolicy) (label : Bytes) (now : Int) :
    Fills policy label (PeerState.removed policy label now) :=
  ⟨(fillNetgroup_fills policy label).source, fun _ => rfl⟩

theorem bannedByHand_fills (policy : PeerPolicy) (label : Bytes) (durationSeconds now : Int) :
    Fills policy label (PeerState.bannedByHand policy label durationSeconds now) :=
  ⟨(fillNetgroup_fills policy label).source, fun _ => rfl⟩

theorem considered_fills (policy : PeerPolicy) (label : Bytes) (now : Int) :
    Fills policy label (PeerState.considered policy label now) :=
  ((fillNetgroup_fills policy label).before (decay_keepsTexts now)).after (started_keepsTexts now)

theorem punished_fills (policy : PeerPolicy) (label : Bytes) (penalty : Penalty) (now : Int) :
    Fills policy label (PeerState.punished policy label penalty now) :=
  (considered_fills policy label now).before (charged_keepsTexts policy penalty now)

/-- The texts of all states are sound. -/
def SoundStates (policy : PeerPolicy) (states : PeerStates) : Prop :=
  ∀ label s, states.lookup label = some s → Sound policy label s

variable {states : PeerStates}

/-- A state that is filled in is sound, whether it is new or not. -/
theorem SoundStates.modify (h : SoundStates policy states) {f : PeerState → PeerState}
    (hf : Fills policy label f) : SoundStates policy (states.modify label f) := by
  intro l s hs
  rw [PeerStates.modify, FinMap.lookup_insert_ite] at hs
  split at hs
  · next heq =>
      subst heq
      cases hs
      cases hold : states.lookup l with
      | none =>
          rw [Option.getD_none]
          exact ⟨hf.source _ (isWord_source .peer), .inr (hf.netgroup _)⟩
      | some old =>
          have hsound := h l old hold
          refine ⟨hf.source _ hsound.source, ?_⟩
          rw [Option.getD_some, hf.netgroup, PeerState.fillNetgroup]
          split
          · exact .inr rfl
          · exact hsound.netgroup
  · exact h l s hs

theorem SoundStates.mapValues (h : SoundStates policy states) {f : PeerState → PeerState}
    (hf : KeepsTexts f) : SoundStates policy (FinMap.mapValues f states) := by
  intro l s hs
  rw [FinMap.lookup_mapValues] at hs
  obtain ⟨old, hold, rfl⟩ := Option.map_eq_some_iff.mp hs
  have hsound := h l old hold
  exact ⟨(hf old).1 ▸ hsound.source, (hf old).2 ▸ hsound.netgroup⟩

theorem SoundStates.insert (h : SoundStates policy states) (hs : Sound policy label s) :
    SoundStates policy (states.insert label s) := by
  intro l s' hs'
  rw [FinMap.lookup_insert_ite] at hs'
  split at hs'
  · next heq =>
      cases hs'
      exact heq ▸ hs
  · exact h l s' hs'

theorem SoundStates.recordPeerLabel (h : SoundStates policy states) (label : Bytes)
    (source : PeerSource) (now : Int) :
    SoundStates policy (PeerStates.recordPeerLabel policy label source.text now states) := by
  rw [PeerStates.recordPeerLabel]
  split
  · exact h
  · exact h.modify (recorded_fills policy label source now)

theorem SoundStates.foldl {step : PeerStates → Bytes → PeerStates}
    (hstep : ∀ states label, SoundStates policy states → SoundStates policy (step states label))
    (labels : List Bytes) (h : SoundStates policy states) :
    SoundStates policy (labels.foldl step states) := by
  induction labels generalizing states with
  | nil => exact h
  | cons label labels ih => exact ih (hstep states label h)

theorem sound_new (policy : PeerPolicy) (label : Bytes) (now : Int) :
    Sound policy label { lastUpdated := now, netgroup := policy.netgroup label } :=
  ⟨isWord_source .peer, .inr rfl⟩

theorem SoundStates.run (h : SoundStates policy states) (now : Int) (op : PeerOp) :
    SoundStates policy (op.run policy now states) := by
  cases op with
  | recorded label source => exact h.recordPeerLabel label source now
  | announced label height => exact h.modify (heightNoted_fills policy label height now)
  | greeted session version =>
      rw [PeerOp.run, PeerStates.greet]
      refine (SoundStates.modify ?_ (heightNoted_fills policy _ version.bestHeight now)).modify
        (greeted_fills policy _ version.bestHeight now)
      split
      · exact h.recordPeerLabel _ .handshake now
      · exact h
  | attempted label failure =>
      rw [PeerOp.run]
      split
      · exact h
      · exact h.modify (attempted_fills policy label failure now)
  | connected label =>
      rw [PeerOp.run]
      split
      · exact h
      · exact h.modify (connected_fills policy label now)
  | removed label => exact h.modify (removed_fills policy label now)
  | banChecked label =>
      rw [PeerOp.run, PeerStates.isBanned]
      split
      · exact h
      · split
        · exact h
        · next s hs =>
            have hkept := decay_keepsTexts now s
            have hsound := h label s hs
            exact h.insert ⟨hkept.1 ▸ hsound.source, hkept.2 ▸ hsound.netgroup⟩
  | considered active labels =>
      refine SoundStates.foldl (fun states label h => ?_) labels h
      rw [PeerStates.consider]
      split
      · exact h
      · exact h.modify (considered_fills policy label now)
  | listed connectedLabels known =>
      have hensure : ∀ states label, SoundStates policy states →
          SoundStates policy (PeerStates.ensure policy now states label) := by
        intro states label h
        rw [PeerStates.ensure]
        split
        · exact h
        · exact h.insert (sound_new policy label now)
      exact (SoundStates.foldl hensure known (SoundStates.foldl hensure connectedLabels h)).mapValues
        (decay_keepsTexts now)
  | punished label penalty =>
      rw [PeerOp.run, PeerStates.punishLabel]
      split
      · exact h
      · exact h.modify (punished_fills policy label penalty now)
  | bannedByHand label durationSeconds =>
      rw [PeerOp.run]
      split
      · exact h
      · exact h.modify (bannedByHand_fills policy label durationSeconds now)
  | bansCleared => exact h.mapValues (cleared_keepsTexts now)

/-! ## Runs -/

/-- The states of a node that has started with any file and done any
operations. -/
inductive ReachedStates (policy : PeerPolicy) : PeerStates → Prop where
  | loaded (file : Bytes) : ReachedStates policy (loadPeerState policy file)
  | step {states : PeerStates} (now : Int) (op : PeerOp) :
      ReachedStates policy states → ReachedStates policy (op.run policy now states)

theorem ReachedStates.sound (h : ReachedStates policy states) : SoundStates policy states := by
  induction h with
  | loaded file => exact fun label s hs => (loadPeerState_loaded hs).toSound
  | step now op _ ih => exact ih.run now op

/-! ## Groups -/

variable {v4 : Bytes → Option IpAddress} {port : UInt16}

theorem eq_lineBreak_of_toLower {ch : UInt8} (h : toLower ch = 10) : ch = 10 := by
  rw [toLower] at h
  split at h
  · next hupper =>
      have hsum := congrArg UInt8.toNat h
      have hlow := UInt8.le_iff_toNat_le.mp hupper.1
      have hhigh := UInt8.le_iff_toNat_le.mp hupper.2
      rw [UInt8.toNat_add] at hsum
      simp only [UInt8.reduceToNat] at hsum hlow hhigh
      omega
  · exact h

theorem host_of_parseHostPort {host : Bytes} {p : UInt16}
    (h : parseHostPort label port = some (host, p)) : ∀ ch ∈ host, ch ∈ label := by
  rw [parseHostPort] at h
  split at h
  · cases h
  · split at h
    · dsimp only at h
      split at h
      · cases h
      · obtain ⟨n, -, heq⟩ := Option.map_eq_some_iff.mp h
        cases heq
        exact (List.takeWhile_prefix _).subset
    · cases h
      exact fun _ hch => hch

/-- A group opens with no white space, and has a line break only if the label
has one. -/
theorem peerNetgroup_spec (v4 : Bytes → Option IpAddress) (port : UInt16) (label : Bytes) :
    Opens (peerNetgroup v4 port label) ∧
      ((10 : UInt8) ∈ peerNetgroup v4 port label → (10 : UInt8) ∈ label) := by
  rw [peerNetgroup]
  cases hparse : parseHostPort label port with
  | none =>
      have hbreak : (10 : UInt8) ∉ chars "unknown" := by decide
      exact ⟨⟨117, chars "nknown", rfl, rfl⟩, fun hmem => absurd hmem hbreak⟩
  | some parsed =>
      obtain ⟨host, p⟩ := parsed
      dsimp only
      rw [netgroupFromHost]
      cases v4 host with
      | none =>
          refine ⟨⟨104, chars "ost:" ++ host.map toLower, rfl, rfl⟩, fun hmem => ?_⟩
          rcases List.mem_append.mp hmem with hmem | hmem
          · exact absurd hmem (by decide)
          · obtain ⟨ch, hch, heq⟩ := List.mem_map.mp hmem
            exact eq_lineBreak_of_toLower heq ▸ host_of_parseHostPort hparse ch hch
      | some ip =>
          dsimp only
          obtain ⟨ch, rest, hcons, hspace, -⟩ := decimal_cons ((ip.addr >>> 24) &&& 0xFF).toNat
          refine ⟨⟨ch, rest ++ chars "." ++ (decimal ((ip.addr >>> 16) &&& 0xFF).toNat ++
            chars ".0.0/16"), ?_, hspace⟩, fun hmem => ?_⟩
          · rw [hcons]
            simp only [List.cons_append, List.append_assoc]
          · have hdecimal : ∀ n : Nat, (10 : UInt8) ∉ decimal n := fun n h =>
              absurd (Chat.decimal_not_space n 10 h) (by decide)
            simp only [List.mem_append] at hmem
            rcases hmem with ((hmem | hmem) | hmem) | hmem
            · exact absurd hmem (hdecimal _)
            · exact absurd hmem (by decide)
            · exact absurd hmem (hdecimal _)
            · exact absurd hmem (by decide)

/-! ## A restart -/

/-- The label stands in a line of its own, and ends at its tab. -/
structure OneLine (label : Bytes) (s : PeerState) : Prop where
  label : ∀ ch ∈ label, ch ≠ 9 ∧ ch ≠ 10
  netgroup : (10 : UInt8) ∉ s.netgroup
  reason : (10 : UInt8) ∉ s.lastReason

/-- The state comes back. -/
structure Restores (s s' : PeerState) : Prop where
  score : s'.score = s.score
  bannedUntil : s'.bannedUntil = s.bannedUntil
  successfulConnections : s'.successfulConnections = s.successfulConnections
  failedConnections : s'.failedConnections = s.failedConnections
  invalidMessages : s'.invalidMessages = s.invalidMessages
  lastAnnouncedHeight : s'.lastAnnouncedHeight = s.lastAnnouncedHeight
  netgroup : s'.netgroup = s.netgroup
  lastReason : s'.lastReason = s.lastReason
  source : s'.source = if s.source = [] then chars "peer" else s.source

/-- Texts that the line keeps: no tab or line break in the label, no white
space in the group, and a reason in one line that does not open with white
space. -/
structure Plain (label : Bytes) (s : PeerState) : Prop where
  label : ∀ ch ∈ label, ch ≠ 9 ∧ ch ≠ 10
  netgroup : ∀ ch ∈ s.netgroup, isSpace ch = false
  opens : ∀ ch ∈ s.lastReason.head?, isSpace ch = false
  reason : (10 : UInt8) ∉ s.lastReason

theorem lineBreak_notMem {w : Bytes} (h : ∀ ch ∈ w, isSpace ch = false) : (10 : UInt8) ∉ w :=
  fun hmem => absurd (h 10 hmem) (by decide)

theorem Plain.oneLine (h : Plain label s) : OneLine label s :=
  ⟨h.label, lineBreak_notMem h.netgroup, h.reason⟩

theorem OneLine.unbroken (h : OneLine label s) (hsource : IsWord s.source) :
    (10 : UInt8) ∉ s.line label := by
  intro hmem
  obtain htab | ⟨field, hfield, hbreak⟩ := Chat.mem_joinFields hmem
  · cases htab
  · simp only [List.mem_cons, List.not_mem_nil, or_false] at hfield
    rcases hfield with rfl | rfl | rfl | rfl | rfl | rfl | rfl | rfl | rfl | rfl | rfl | rfl | rfl
    · exact (h.label 10 hbreak).2 rfl
    · exact lineBreak_notMem (intText_not_space _) hbreak
    · exact lineBreak_notMem (intText_not_space _) hbreak
    · exact lineBreak_notMem (intText_not_space _) hbreak
    · exact lineBreak_notMem (intText_not_space _) hbreak
    · exact lineBreak_notMem (intText_not_space _) hbreak
    · exact lineBreak_notMem (Chat.decimal_not_space _) hbreak
    · exact lineBreak_notMem (Chat.decimal_not_space _) hbreak
    · exact lineBreak_notMem (Chat.decimal_not_space _) hbreak
    · exact lineBreak_notMem (Chat.decimal_not_space _) hbreak
    · exact lineBreak_notMem hsource.bytes hbreak
    · exact h.netgroup hbreak
    · exact h.reason hbreak

variable {order : FinMap.VisitOrder Bytes PeerState}

theorem mem_savedEntries : (label, s) ∈ savedEntries order states ↔
    states.lookup label = some s ∧ s.idle = false := by
  rw [savedEntries, List.mem_filter, order.mem_visit, Bool.not_eq_true']

/-- Lines that do not break are read one by one. -/
theorem load_save (hfits : ∀ label s, states.lookup label = some s → s.Fits)
    (hsound : SoundStates policy states) (hgroup : ∀ label, Opens (policy.netgroup label))
    (hline : ∀ entry ∈ savedEntries order states, OneLine entry.1 entry.2)
    (hsaved : (label, s) ∈ savedEntries order states) :
    (loadPeerState policy (savePeerState order states)).lookup label = some s.reread := by
  have hread : ∀ entry ∈ savedEntries order states,
      readPeerState policy (entry.2.line entry.1) = some (entry.1, entry.2.reread) := by
    intro entry hentry
    obtain ⟨hlookup, -⟩ := mem_savedEntries.mp hentry
    have hentrySound := hsound _ _ hlookup
    refine readPeerState_line policy (fun hmem => ((hline entry hentry).label 9 hmem).1 rfl)
      (hfits _ _ hlookup) hentrySound.source ?_
    obtain hword | heq := hentrySound.netgroup
    · exact hword.opens
    · rw [heq]
      exact hgroup _
  have hlines : getLines 10 (savePeerState order states)
      = (savedEntries order states).map fun entry => entry.2.line entry.1 := by
    refine getLines_putLines fun line hmem => ?_
    obtain ⟨entry, hentry, rfl⟩ := List.mem_map.mp hmem
    exact (hline entry hentry).unbroken (hsound _ _ (mem_savedEntries.mp hentry).1).source
  have hentries : ((savedEntries order states).map fun entry => entry.2.line entry.1).filterMap
      (readPeerState policy)
        = (savedEntries order states).map fun entry => (entry.1, entry.2.reread) := by
    rw [List.filterMap_map, ← List.filterMap_eq_map]
    exact List.filterMap_congr hread
  have hkeys : (((savedEntries order states).map fun entry => (entry.1, entry.2.reread)).map
      Prod.fst).Nodup := by
    rw [List.map_map]
    exact (order.nodup_keys states).sublist (List.filter_sublist.map Prod.fst)
  rw [loadPeerState, hlines, hentries]
  exact FinMap.lookup_insertAll_of_mem hkeys (List.mem_map.mpr ⟨(label, s), hsaved, rfl⟩)

/-- White space before a reason is skipped, and nothing else. -/
theorem dropWhile_tab {reason : Bytes} (h : ∀ ch ∈ reason.head?, isSpace ch = false) :
    (9 :: reason).dropWhile isSpace = reason := by
  rw [List.dropWhile_cons_of_pos rfl]
  cases reason with
  | nil => rfl
  | cons ch rest => exact List.dropWhile_cons_of_neg (by rw [h ch rfl]; decide)

/-- A plain state is read as it was. -/
theorem Plain.restores (h : Plain label s) (hsource : IsWord s.source) (hgroup : Opens s.netgroup) :
    Restores s s.reread := by
  obtain ⟨ch, rest, hcons, -⟩ := hgroup
  have hword : IsWord s.netgroup := ⟨hcons ▸ List.cons_ne_nil _ _, h.netgroup⟩
  refine ⟨rfl, rfl, rfl, rfl, rfl, rfl, hword.takeWhile.1, ?_, (if_neg hsource.ne_nil).symm⟩
  change (s.netgroup.dropWhile isWordByte ++ 9 :: s.lastReason).dropWhile isSpace = s.lastReason
  rw [hword.takeWhile.2, List.nil_append, dropWhile_tab h.opens]

/-- A group that comes back has no white space. -/
theorem group_of_restores (h : Restores s s.reread) : ∀ ch ∈ s.netgroup, isSpace ch = false := by
  have hkept : s.netgroup.takeWhile isWordByte = s.netgroup := h.netgroup
  intro ch hch
  have hword : isWordByte ch = true := List.takeWhile_eq_self_iff.mp hkept ch hch
  rwa [isWordByte, Bool.not_eq_true'] at hword

/-- Every saved label is back after a restart. -/
def Survives (policy : PeerPolicy) (order : FinMap.VisitOrder Bytes PeerState)
    (states : PeerStates) : Prop :=
  ∀ label s, states.lookup label = some s → s.idle = false →
    ∃ s', (loadPeerState policy (savePeerState order states)).lookup label = some s' ∧
      Restores s s'

/-- What comes back stood in a line of its own. -/
theorem oneLine_of_survives (hreached : ReachedStates (policy.grouped v4) states)
    (hback : Survives (policy.grouped v4) order states) (hs : states.lookup label = some s)
    (hidle : s.idle = false) :
    OneLine label s ∧ ∀ ch ∈ s.lastReason.head?, isSpace ch = false := by
  obtain ⟨s', hs', hrestores⟩ := hback label s hs hidle
  have hloaded := loadPeerState_loaded hs'
  have hreason := hrestores.lastReason
  refine ⟨⟨hloaded.label, fun hmem => ?_, hreason ▸ hloaded.reason⟩, hreason ▸ hloaded.opens⟩
  -- A group from a file is a word; the one of the label breaks only with it.
  obtain hword | heq := (hreached.sound label s hs).netgroup
  · exact lineBreak_notMem hword.bytes hmem
  · have hlabel := (peerNetgroup_spec v4 _ label).2 (heq ▸ hmem)
    exact (hloaded.label 10 hlabel).2 rfl

theorem plain_of_survives (hreached : ReachedStates (policy.grouped v4) states)
    (hfits : ∀ label s, states.lookup label = some s → s.Fits)
    (hback : Survives (policy.grouped v4) order states) (hs : states.lookup label = some s)
    (hidle : s.idle = false) : Plain label s := by
  have hsaved : (label, s) ∈ savedEntries order states := mem_savedEntries.mpr ⟨hs, hidle⟩
  have hread := load_save hfits hreached.sound (fun label => (peerNetgroup_spec v4 _ label).1)
    (fun entry hentry => (oneLine_of_survives hreached hback (mem_savedEntries.mp hentry).1
      (mem_savedEntries.mp hentry).2).1) hsaved
  obtain ⟨s', hs', hrestores⟩ := hback label s hs hidle
  rw [hread] at hs'
  cases hs'
  obtain ⟨hline, hopens⟩ := oneLine_of_survives hreached hback hs hidle
  exact ⟨hline.label, group_of_restores hrestores, hopens, hline.reason⟩

theorem survives_of_plain (hreached : ReachedStates (policy.grouped v4) states)
    (hfits : ∀ label s, states.lookup label = some s → s.Fits)
    (hplain : ∀ label s, states.lookup label = some s → s.idle = false → Plain label s) :
    Survives (policy.grouped v4) order states := by
  intro label s hs hidle
  have hgroup : ∀ label, Opens ((policy.grouped v4).netgroup label) :=
    fun label => (peerNetgroup_spec v4 _ label).1
  refine ⟨s.reread, load_save hfits hreached.sound hgroup (fun entry hentry => (hplain _ _
    (mem_savedEntries.mp hentry).1 (mem_savedEntries.mp hentry).2).oneLine)
    (mem_savedEntries.mpr ⟨hs, hidle⟩), ?_⟩
  have hstate := hreached.sound label s hs
  refine (hplain label s hs hidle).restores hstate.source ?_
  obtain hword | heq := hstate.netgroup
  · exact hword.opens
  · rw [heq]
    exact hgroup label

/-- After a restart every saved label is back if and only if every saved state
is plain. -/
theorem peer_states_survive_iff (v4 : Bytes → Option IpAddress) (policy : PeerPolicy)
    (order : FinMap.VisitOrder Bytes PeerState) (states : PeerStates)
    (hreached : ReachedStates (policy.grouped v4) states)
    (hfits : ∀ label s, states.lookup label = some s → s.Fits) :
    Survives (policy.grouped v4) order states ↔
      ∀ label s, states.lookup label = some s → s.idle = false → Plain label s :=
  ⟨fun hback _ _ hs hidle => plain_of_survives hreached hfits hback hs hidle,
    survives_of_plain hreached hfits⟩

/-! ## A ban by hand -/

/-- What `make_address` reads of the hosts below. -/
def sampleAddress (host : Bytes) : Option IpAddress :=
  if host = chars "1.2.3.4" then some ⟨0x01020304⟩ else none

abbrev hostPolicy : PeerPolicy := samplePolicy.grouped sampleAddress

/-- The states of a fresh node after its only operation. -/
def statesAfter (op : PeerOp) : PeerStates :=
  op.run hostPolicy 1000 (loadPeerState hostPolicy [])

theorem reached_statesAfter (op : PeerOp) : ReachedStates hostPolicy (statesAfter op) :=
  .step 1000 op (.loaded [])

/-- The punished label has a state, and no other. -/
theorem lookup_statesAfter {op : PeerOp} {l : Bytes} {v : PeerState}
    (h : statesAfter op = (∅ : PeerStates).insert l v) {label : Bytes} {s : PeerState}
    (hs : (statesAfter op).lookup label = some s) : label = l ∧ s = v := by
  rw [h, FinMap.lookup_insert_ite] at hs
  split at hs
  · next heq => exact ⟨heq, (Option.some.inj hs).symm⟩
  · rw [Finmap.lookup_empty] at hs
    cases hs

abbrev anyOrder : FinMap.VisitOrder Bytes PeerState := .byRank textRank textRank_injective

/-- A peer that was punished up to a ban is still banned after a restart. -/
theorem ban_survives : Survives hostPolicy anyOrder
    (statesAfter (.punished (chars "1.2.3.4:9333") ⟨100, chars "test"⟩)) := by
  have hstates : statesAfter (.punished (chars "1.2.3.4:9333") ⟨100, chars "test"⟩)
      = (∅ : PeerStates).insert (chars "1.2.3.4:9333") (PeerState.punished hostPolicy
          (chars "1.2.3.4:9333") ⟨100, chars "test"⟩ 1000 {}) := rfl
  refine (peer_states_survive_iff sampleAddress samplePolicy anyOrder _ (reached_statesAfter _)
    fun label s hs => ?_).mpr fun label s hs _ => ?_
  · obtain ⟨-, rfl⟩ := lookup_statesAfter hstates hs
    exact ⟨by decide, by decide, by decide, by decide, by decide⟩
  · obtain ⟨rfl, rfl⟩ := lookup_statesAfter hstates hs
    exact ⟨by decide, by decide, by decide +kernel, by decide⟩

/-- The host that is banned by hand has a space in its name, and so has its
group. -/
theorem not_survives : ¬ ∀ (v4 : Bytes → Option IpAddress) (policy : PeerPolicy)
    (order : FinMap.VisitOrder Bytes PeerState) (states : PeerStates),
    ReachedStates (policy.grouped v4) states →
    (∀ label s, states.lookup label = some s → s.Fits) →
    Survives (policy.grouped v4) order states := by
  intro hall
  have hstates : statesAfter (.bannedByHand (chars "my host") 3600)
      = (∅ : PeerStates).insert (chars "my host") (PeerState.bannedByHand hostPolicy
          (chars "my host") 3600 1000 {}) := rfl
  have hfits : ∀ label s, (statesAfter (.bannedByHand (chars "my host") 3600)).lookup label = some s →
      s.Fits := by
    intro label s hs
    obtain ⟨-, rfl⟩ := lookup_statesAfter hstates hs
    exact ⟨by decide, by decide, by decide, by decide, by decide⟩
  have hback := hall sampleAddress samplePolicy anyOrder _ (reached_statesAfter _) hfits
  have hplain : Plain (chars "my host") _ := plain_of_survives (reached_statesAfter _) hfits hback
    (by rw [hstates]; exact Finmap.lookup_insert _) (by decide)
  exact absurd hplain.netgroup (by decide)

end Peers

end Cryptex
