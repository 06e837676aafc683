import Mathlib.Data.List.TakeWhile
import Mathlib.Data.List.Infix

/-!
# Frames on a stream

A sender writes frames one after another to a stream of symbols, a receiver
reads them back in two parts: a header of a fixed size, and the body whose size
the header tells. How the stream cuts what it carries is left open, and so is
when each party gets its turn.

`Format.settle` says what a receiver makes of the symbols it has, however they
came. On it rests `Link.sound`: one frame is written at a time, and what is
handled is what was sent, in order and once. `Receiver.Consumed` is about a
receiver that gets any symbols.
-/

namespace Framing

variable {β η μ : Type*}

/-- How a receiver reads a frame. A header may be refused. -/
structure Format (β η μ : Type*) where
  headerSize : Nat
  headerSize_pos : 0 < headerSize
  readHeader : List β → Option η
  bodySize : η → Nat
  message : η → List β → μ

/-! ## The receiver -/

/-- What a receiver waits for. -/
inductive Phase (η : Type*) where
  | header
  | body (h : η)
  | closed

structure Receiver (β η μ : Type*) where
  phase : Phase η
  /-- What arrived and was not read. -/
  buffered : List β
  handled : List μ

namespace Receiver

def start : Receiver β η μ := ⟨.header, [], []⟩

def arrive (r : Receiver β η μ) (symbols : List β) : Receiver β η μ :=
  { r with buffered := r.buffered ++ symbols }

def hangUp (r : Receiver β η μ) : Receiver β η μ := { r with phase := .closed }

theorem arrive_arrive (r : Receiver β η μ) (xs ys : List β) :
    (r.arrive xs).arrive ys = r.arrive (xs ++ ys) := by
  simp only [arrive, List.append_assoc]

/-- What a read uses up: symbols, or the header that it follows. -/
def weight (r : Receiver β η μ) : Nat :=
  2 * r.buffered.length + match r.phase with
    | .body _ => 1
    | _ => 0

end Receiver

namespace Format

variable (F : Format β η μ)

/-- The next part of a frame is read once all of it arrived. -/
def read (r : Receiver β η μ) : Option (Receiver β η μ) :=
  match r.phase with
  | .header =>
      if r.buffered.length < F.headerSize then none
      else
        match F.readHeader (r.buffered.take F.headerSize) with
        | none => some { r with phase := .closed, buffered := r.buffered.drop F.headerSize }
        | some h => some { r with phase := .body h, buffered := r.buffered.drop F.headerSize }
  | .body h =>
      if r.buffered.length < F.bodySize h then none
      else
        some
          { phase := .header
            buffered := r.buffered.drop (F.bodySize h)
            handled := r.handled ++ [F.message h (r.buffered.take (F.bodySize h))] }
  | .closed => none

variable {F} {r r' : Receiver β η μ}

/-- What a read does. -/
theorem read_cases (h : F.read r = some r') :
    (r.phase = .header ∧ F.headerSize ≤ r.buffered.length ∧
      F.readHeader (r.buffered.take F.headerSize) = none ∧
      r' = ⟨.closed, r.buffered.drop F.headerSize, r.handled⟩) ∨
    (∃ head, r.phase = .header ∧ F.headerSize ≤ r.buffered.length ∧
      F.readHeader (r.buffered.take F.headerSize) = some head ∧
      r' = ⟨.body head, r.buffered.drop F.headerSize, r.handled⟩) ∨
    ∃ head, r.phase = .body head ∧ F.bodySize head ≤ r.buffered.length ∧
      r' = ⟨.header, r.buffered.drop (F.bodySize head),
        r.handled ++ [F.message head (r.buffered.take (F.bodySize head))]⟩ := by
  rw [read] at h
  cases hphase : r.phase with
  | header =>
      simp only [hphase] at h
      by_cases hsize : r.buffered.length < F.headerSize
      · rw [if_pos hsize] at h
        cases h
      · rw [if_neg hsize] at h
        cases hhead : F.readHeader (r.buffered.take F.headerSize) with
        | none =>
            rw [hhead] at h
            cases h
            exact .inl ⟨rfl, not_lt.mp hsize, rfl, rfl⟩
        | some head =>
            rw [hhead] at h
            cases h
            exact .inr (.inl ⟨head, rfl, not_lt.mp hsize, rfl, rfl⟩)
  | body head =>
      simp only [hphase] at h
      by_cases hsize : r.buffered.length < F.bodySize head
      · rw [if_pos hsize] at h
        cases h
      · rw [if_neg hsize] at h
        cases h
        exact .inr (.inr ⟨head, rfl, not_lt.mp hsize, rfl⟩)
  | closed =>
      simp only [hphase] at h
      cases h

theorem read_refused (hphase : r.phase = .header) (hsize : F.headerSize ≤ r.buffered.length)
    (hhead : F.readHeader (r.buffered.take F.headerSize) = none) :
    F.read r = some ⟨.closed, r.buffered.drop F.headerSize, r.handled⟩ := by
  rw [read, hphase]
  simp only [if_neg (not_lt.mpr hsize), hhead]

theorem read_header {head : η} (hphase : r.phase = .header)
    (hsize : F.headerSize ≤ r.buffered.length)
    (hhead : F.readHeader (r.buffered.take F.headerSize) = some head) :
    F.read r = some ⟨.body head, r.buffered.drop F.headerSize, r.handled⟩ := by
  rw [read, hphase]
  simp only [if_neg (not_lt.mpr hsize), hhead]

theorem read_body {head : η} (hphase : r.phase = .body head)
    (hsize : F.bodySize head ≤ r.buffered.length) :
    F.read r = some ⟨.header, r.buffered.drop (F.bodySize head),
      r.handled ++ [F.message head (r.buffered.take (F.bodySize head))]⟩ := by
  rw [read, hphase]
  simp only [if_neg (not_lt.mpr hsize)]

theorem read_closed (hphase : r.phase = .closed) : F.read r = none := by
  rw [read, hphase]

theorem weight_read (h : F.read r = some r') : r'.weight < r.weight := by
  have hpos := F.headerSize_pos
  rcases read_cases h with ⟨hphase, hsize, -, rfl⟩ | ⟨head, hphase, hsize, -, rfl⟩ |
    ⟨head, hphase, hsize, rfl⟩
  · simp only [Receiver.weight, hphase, List.length_drop]
    omega
  · simp only [Receiver.weight, hphase, List.length_drop]
    omega
  · simp only [Receiver.weight, hphase, List.length_drop]
    omega

/-- A read does not look at what arrives after it. -/
theorem read_arrive (symbols : List β) (h : F.read r = some r') :
    F.read (r.arrive symbols) = some (r'.arrive symbols) := by
  have hlength : r.buffered.length ≤ (r.arrive symbols).buffered.length := by
    rw [Receiver.arrive, List.length_append]
    exact Nat.le_add_right _ _
  rcases read_cases h with ⟨hphase, hsize, hhead, rfl⟩ | ⟨head, hphase, hsize, hhead, rfl⟩ |
    ⟨head, hphase, hsize, rfl⟩
  · rw [read_refused (r := r.arrive symbols) hphase (hsize.trans hlength)]
    · simp only [Receiver.arrive, List.drop_append_of_le_length hsize]
    · rw [Receiver.arrive, List.take_append_of_le_length hsize, hhead]
  · have htake : F.readHeader ((r.arrive symbols).buffered.take F.headerSize) = some head := by
      rw [Receiver.arrive, List.take_append_of_le_length hsize, hhead]
    rw [read_header (r := r.arrive symbols) hphase (hsize.trans hlength) htake]
    simp only [Receiver.arrive, List.drop_append_of_le_length hsize]
  · rw [read_body (r := r.arrive symbols) hphase (hsize.trans hlength)]
    simp only [Receiver.arrive, List.drop_append_of_le_length hsize,
      List.take_append_of_le_length hsize]

/-! ## What a receiver makes of what it has -/

variable (F) in
/-- All reads that are possible. -/
def settle (r : Receiver β η μ) : Receiver β η μ :=
  match _h : F.read r with
  | none => r
  | some r' => settle r'
termination_by r.weight
decreasing_by exact weight_read _h

theorem settle_idle (h : F.read r = none) : F.settle r = r := by
  unfold settle
  split
  · rfl
  · next hread => rw [h] at hread; cases hread

theorem settle_read (h : F.read r = some r') : F.settle r = F.settle r' := by
  conv_lhs => unfold settle
  split
  · next hread => rw [h] at hread; cases hread
  · next hread => rw [h] at hread; cases hread; rfl

/-- Induction over the reads of a receiver. -/
theorem settle_induction (F : Format β η μ) {motive : Receiver β η μ → Prop}
    (idle : ∀ r, F.read r = none → motive r)
    (step : ∀ r r', F.read r = some r' → motive r' → motive r) (r : Receiver β η μ) :
    motive r := by
  cases hread : F.read r with
  | none => exact idle r hread
  | some r' => exact step r r' hread (settle_induction F idle step r')
termination_by r.weight
decreasing_by exact weight_read hread

/-- It does not matter what was read before more arrived. -/
theorem settle_arrive (F : Format β η μ) (r : Receiver β η μ) (symbols : List β) :
    F.settle ((F.settle r).arrive symbols) = F.settle (r.arrive symbols) := by
  induction r using settle_induction F with
  | idle r h => rw [settle_idle h]
  | step r r' h ih => rw [settle_read h, settle_read (read_arrive symbols h), ih]

theorem handled_read (h : F.read r = some r') : r.handled <+: r'.handled := by
  rcases read_cases h with ⟨-, -, -, rfl⟩ | ⟨_, -, -, -, rfl⟩ | ⟨_, -, -, rfl⟩
  · exact List.prefix_rfl
  · exact List.prefix_rfl
  · exact List.prefix_append _ _

theorem handled_settle (F : Format β η μ) (r : Receiver β η μ) :
    r.handled <+: (F.settle r).handled := by
  induction r using settle_induction F with
  | idle r h => rw [settle_idle h]
  | step r r' h ih => exact (handled_read h).trans (settle_read h ▸ ih)

/-- More symbols make no handled message undone. -/
theorem handled_settle_arrive (F : Format β η μ) (r : Receiver β η μ) (symbols : List β) :
    (F.settle r).handled <+: (F.settle (r.arrive symbols)).handled := by
  rw [← settle_arrive]
  exact handled_settle F ((F.settle r).arrive symbols)

/-! ## Frames -/

/-- A frame that is read as a message. -/
def Reads (F : Format β η μ) (frame : List β) (m : μ) : Prop :=
  ∃ head body, frame = head ++ body ∧ head.length = F.headerSize ∧
    ∃ h, F.readHeader head = some h ∧ F.bodySize h = body.length ∧ F.message h body = m

/-- A frame whose header is refused. -/
def Refuses (F : Format β η μ) (frame : List β) : Prop :=
  F.headerSize ≤ frame.length ∧ F.readHeader (frame.take F.headerSize) = none

theorem settle_frame {frame : List β} {m : μ} (h : F.Reads frame m) (rest : List β)
    (handled : List μ) :
    F.settle ⟨.header, frame ++ rest, handled⟩ = F.settle ⟨.header, rest, handled ++ [m]⟩ := by
  obtain ⟨head, body, rfl, hsize, h, hhead, hbody, rfl⟩ := h
  have htake : F.readHeader ((head ++ (body ++ rest)).take F.headerSize) = some h := by
    rw [← hsize, List.take_left, hhead]
  have hdrop : (head ++ (body ++ rest)).drop F.headerSize = body ++ rest := by
    rw [← hsize, List.drop_left]
  have hlength : F.headerSize ≤ (head ++ (body ++ rest)).length := by
    rw [List.length_append, hsize]
    exact Nat.le_add_right _ _
  have hlength' : F.bodySize h ≤ (body ++ rest).length := by
    rw [List.length_append, hbody]
    exact Nat.le_add_right _ _
  have hfirst := read_header (F := F) (r := ⟨.header, head ++ (body ++ rest), handled⟩) rfl hlength
    htake
  have hsecond := @read_body _ _ _ F ⟨.body h, body ++ rest, handled⟩ h rfl hlength'
  rw [List.append_assoc, settle_read hfirst, hdrop, settle_read hsecond]
  simp only [hbody, List.drop_left, List.take_left]

theorem handled_settle_refused {frame : List β} (h : F.Refuses frame) (rest : List β)
    (handled : List μ) : (F.settle ⟨.header, frame ++ rest, handled⟩).handled = handled := by
  obtain ⟨hsize, hhead⟩ := h
  have hread := read_refused (F := F) (r := ⟨.header, frame ++ rest, handled⟩) rfl
    (by rw [List.length_append]; omega) (by rw [List.take_append_of_le_length hsize, hhead])
  rw [settle_read hread, settle_idle (read_closed rfl)]

/-- The messages of a row of frames, up to the first that is refused. -/
theorem handled_settle_frames {enc : μ → List β} {ok : μ → Bool} : ∀ (sent handled : List μ),
    (∀ m ∈ sent, if ok m then F.Reads (enc m) m else F.Refuses (enc m)) →
    (F.settle ⟨.header, sent.flatMap enc, handled⟩).handled = handled ++ sent.takeWhile ok
  | [], handled, _ => by
      have hidle : F.read ⟨.header, [], handled⟩ = none := by
        rw [read]
        exact if_pos F.headerSize_pos
      rw [List.flatMap_nil, settle_idle hidle, List.takeWhile_nil, List.append_nil]
  | m :: sent, handled, h => by
      have hm := h m List.mem_cons_self
      rw [List.flatMap_cons]
      cases hok : ok m with
      | true =>
          rw [hok, if_pos rfl] at hm
          rw [settle_frame hm,
            handled_settle_frames sent _ fun m' hm' => h m' (List.mem_cons_of_mem _ hm'),
            List.takeWhile_cons_of_pos hok, List.append_assoc, List.singleton_append]
      | false =>
          rw [hok, if_neg Bool.false_ne_true] at hm
          rw [handled_settle_refused hm, List.takeWhile_cons_of_neg (by rw [hok]; exact nofun),
            List.append_nil]

/-- What a receiver makes of all that was sent. -/
theorem handled_settle_sent {enc : μ → List β} {ok : μ → Bool} {sent : List μ}
    (h : ∀ m ∈ sent, if ok m then F.Reads (enc m) m else F.Refuses (enc m)) :
    (F.settle (Receiver.start.arrive (sent.flatMap enc))).handled = sent.takeWhile ok :=
  handled_settle_frames sent [] h

end Format

/-! ## Any symbols -/

/-- A header and a body that are read are the frame of the message. -/
def Format.Exact (F : Format β η μ) (enc : μ → List β) : Prop :=
  ∀ head h body, head.length = F.headerSize → F.readHeader head = some h →
    body.length = F.bodySize h → enc (F.message h body) = head ++ body

namespace Receiver

variable {F : Format β η μ} {enc : μ → List β} {r r' : Receiver β η μ} {taken part : List β}

/-- Of what a receiver got, it used up the frames of what it handled, and at
most one header. -/
structure Consumed (F : Format β η μ) (enc : μ → List β) (r : Receiver β η μ)
    (taken part : List β) : Prop where
  taken_eq : taken = r.handled.flatMap enc ++ (part ++ r.buffered)
  header : r.phase = .header → part = []
  body : ∀ h, r.phase = .body h → part.length = F.headerSize ∧ F.readHeader part = some h
  reads : ∀ m ∈ r.handled, F.Reads (enc m) m

theorem consumed_start : (start : Receiver β η μ).Consumed F enc [] [] where
  taken_eq := rfl
  header := fun _ => rfl
  body := nofun
  reads := nofun

theorem Consumed.arrive (h : r.Consumed F enc taken part) (symbols : List β) :
    (r.arrive symbols).Consumed F enc (taken ++ symbols) part where
  taken_eq := by
    rw [h.taken_eq, Receiver.arrive]
    simp only [List.append_assoc]
  header := h.header
  body := h.body
  reads := h.reads

theorem Consumed.hangUp (h : r.Consumed F enc taken part) :
    r.hangUp.Consumed F enc taken part where
  taken_eq := h.taken_eq
  header := nofun
  body := nofun
  reads := h.reads

theorem Consumed.read (hexact : F.Exact enc) (h : r.Consumed F enc taken part)
    (hread : F.read r = some r') : ∃ part', r'.Consumed F enc taken part' := by
  have htaken := h.taken_eq
  rcases Format.read_cases hread with ⟨hphase, hsize, hhead, rfl⟩ |
    ⟨head, hphase, hsize, hhead, rfl⟩ | ⟨head, hphase, hsize, rfl⟩
  · refine ⟨r.buffered.take F.headerSize, ?_, nofun, nofun, h.reads⟩
    rw [htaken, h.header hphase, List.nil_append, List.take_append_drop]
  · refine ⟨r.buffered.take F.headerSize, ?_, nofun, fun h' hh => ?_, h.reads⟩
    · rw [htaken, h.header hphase, List.nil_append, List.take_append_drop]
    · cases hh
      exact ⟨List.length_take_of_le hsize, hhead⟩
  · obtain ⟨hlength, hpart⟩ := h.body head hphase
    have hbody := List.length_take_of_le hsize
    have hframe := hexact part head _ hlength hpart hbody
    refine ⟨[], ?_, fun _ => rfl, nofun, fun m hm => ?_⟩
    · rw [htaken, List.flatMap_append, List.flatMap_singleton, hframe]
      simp only [List.append_assoc, List.nil_append, List.take_append_drop]
    · rcases List.mem_append.mp hm with hold | hnew
      · exact h.reads m hold
      · rw [List.mem_singleton.mp hnew]
        exact ⟨part, _, hframe, hlength, head, hpart, hbody.symm, rfl⟩

end Receiver

/-! ## A link from a sender to a receiver -/

/-- One direction of a connection. The stream takes what is being written part
by part, and lets it arrive part by part. -/
structure Link (β η μ : Type*) where
  /-- The frames to write; the first is the one being written. -/
  outbox : List (List β)
  /-- What is left of each write under way. -/
  writes : List (List β)
  wire : List β
  receiver : Receiver β η μ

inductive Event (μ : Type*) where
  | send (m : μ)
  /-- The stream takes `n` symbols of a write. -/
  | transmit (i n : Nat)
  /-- The completion of a write of which nothing is left. -/
  | written (i : Nat)
  | writeFailed (i : Nat)
  | deliver (n : Nat)
  | read
  | hangUp

def Event.sent : Event μ → List μ
  | .send m => [m]
  | .transmit .. | .written _ | .writeFailed _ | .deliver _ | .read | .hangUp => []

/-- What is sent in a run. -/
def sentBy (events : List (Event μ)) : List μ := events.flatMap Event.sent

namespace Link

variable (F : Format β η μ) (enc : μ → List β)

def empty : Link β η μ := ⟨[], [], [], .start⟩

/-- A write of the first frame begins, if there is one. -/
def writeNext (l : Link β η μ) : Link β η μ :=
  match l.outbox with
  | [] => l
  | frame :: _ => { l with writes := l.writes ++ [frame] }

def step (l : Link β η μ) : Event μ → Link β η μ
  | .send m =>
      let pushed := { l with outbox := l.outbox ++ [enc m] }
      if l.outbox = [] then pushed.writeNext else pushed
  | .transmit i n =>
      match l.writes[i]? with
      | none => l
      | some left => { l with writes := l.writes.set i (left.drop n), wire := l.wire ++ left.take n }
  | .written i =>
      match l.writes[i]? with
      | some [] => { l with outbox := l.outbox.tail, writes := l.writes.eraseIdx i }.writeNext
      | _ => l
  | .writeFailed i => { l with writes := l.writes.eraseIdx i }
  | .deliver n =>
      { l with wire := l.wire.drop n, receiver := l.receiver.arrive (l.wire.take n) }
  | .read => { l with receiver := (F.read l.receiver).getD l.receiver }
  | .hangUp => { l with receiver := l.receiver.hangUp }

/-! ## What is on its way -/

end Link

namespace Receiver

variable (F : Format β η μ)

/-- The receiver is one that got `taken`, however it came. -/
def Attached (r : Receiver β η μ) (taken : List β) : Prop :=
  F.settle r = F.settle (start.arrive taken)

/-- The receiver was cut off. -/
def Cut (r : Receiver β η μ) (taken : List β) : Prop :=
  r.phase = .closed ∧ r.handled <+: (F.settle (start.arrive taken)).handled

variable {F} {r : Receiver β η μ} {taken : List β}

theorem Attached.handled (h : r.Attached F taken) :
    r.handled <+: (F.settle (start.arrive taken)).handled :=
  h ▸ Format.handled_settle F r

theorem Attached.arrive (h : r.Attached F taken) (symbols : List β) :
    (r.arrive symbols).Attached F (taken ++ symbols) := by
  rw [Attached, ← Format.settle_arrive, h, Format.settle_arrive, arrive_arrive]

theorem Cut.arrive (h : r.Cut F taken) (symbols : List β) :
    (r.arrive symbols).Cut F (taken ++ symbols) := by
  refine ⟨h.1, ?_⟩
  rw [← arrive_arrive]
  exact h.2.trans (Format.handled_settle_arrive F _ _)

end Receiver

namespace Link

/-- The invariant of a link to which `sent` was given: `taken` is what the
receiver got, `left` what the one write under way has left. -/
structure Carries (F : Format β η μ) (enc : μ → List β) (cut : Prop) (sent : List μ)
    (l : Link β η μ) (taken left : List β) : Prop where
  conserved : taken ++ (l.wire ++ (left ++ l.outbox.tail.flatten)) = sent.flatMap enc
  one_write : l.writes = [] ∨ l.writes = [left]
  idle : l.outbox = [] → l.writes = [] ∧ left = []
  follows : l.receiver.Attached F taken ∨ cut ∧ l.receiver.Cut F taken

variable {F : Format β η μ} {enc : μ → List β} {cut : Prop} {sent : List μ} {l : Link β η μ}
  {taken left : List β}

theorem carries_empty : (empty : Link β η μ).Carries F enc cut [] [] [] where
  conserved := rfl
  one_write := .inl rfl
  idle := fun _ => ⟨rfl, rfl⟩
  follows := .inl rfl

theorem Carries.handled (h : l.Carries F enc cut sent taken left) :
    l.receiver.handled <+: (F.settle (Receiver.start.arrive taken)).handled := by
  rcases h.follows with hattached | ⟨-, hcut⟩
  · exact hattached.handled
  · exact hcut.2

/-- There is at most one write under way. -/
theorem Carries.write_eq (h : l.Carries F enc cut sent taken left) {i : Nat} {x : List β}
    (hx : l.writes[i]? = some x) : i = 0 ∧ x = left ∧ l.writes = [left] ∧ l.outbox ≠ [] := by
  have hone : l.writes = [left] := by
    rcases h.one_write with hnone | hone
    · rw [hnone, List.getElem?_nil] at hx
      cases hx
    · exact hone
  have hout : l.outbox ≠ [] := fun hnil => by
    rw [(h.idle hnil).1] at hone
    cases hone
  cases i with
  | zero =>
      rw [hone, List.getElem?_cons_zero] at hx
      exact ⟨rfl, (Option.some.inj hx).symm, hone, hout⟩
  | succ i =>
      rw [hone, List.getElem?_cons_succ, List.getElem?_nil] at hx
      cases hx

theorem Carries.send (h : l.Carries F enc cut sent taken left) (m : μ) :
    ∃ left', (l.step F enc (.send m)).Carries F enc cut (sent ++ [m]) taken left' := by
  have hconserved := h.conserved
  have hsent : (sent ++ [m]).flatMap enc = sent.flatMap enc ++ enc m := by
    rw [List.flatMap_append, List.flatMap_singleton]
  cases hout : l.outbox with
  | nil =>
      obtain ⟨hwrites, rfl⟩ := h.idle hout
      have hstep : l.step F enc (.send m) =
          { l with outbox := [enc m], writes := [enc m] } := by
        simp only [step, hout, writeNext, if_pos, List.nil_append, hwrites]
      rw [hstep]
      refine ⟨enc m, ?_, .inr rfl, nofun, h.follows⟩
      rw [hout] at hconserved
      simp only [List.tail_nil, List.tail_cons, List.flatten_nil, List.append_nil] at hconserved ⊢
      rw [hsent, ← hconserved, List.append_assoc]
  | cons frame rest =>
      have hstep : l.step F enc (.send m) = { l with outbox := l.outbox ++ [enc m] } := by
        simp only [step, hout]
        exact if_neg (List.cons_ne_nil _ _)
      rw [hstep]
      refine ⟨left, ?_, h.one_write, fun hnil => ?_, h.follows⟩
      · rw [hout] at hconserved
        simp only [hout, List.cons_append, List.tail_cons] at hconserved ⊢
        rw [hsent, ← hconserved, List.flatten_append, List.flatten_singleton]
        simp only [List.append_assoc]
      · exact absurd hnil (List.append_ne_nil_of_right_ne_nil _ (List.cons_ne_nil _ _))

theorem Carries.transmit (h : l.Carries F enc cut sent taken left) (i n : Nat) :
    ∃ left', (l.step F enc (.transmit i n)).Carries F enc cut sent taken left' := by
  cases hx : l.writes[i]? with
  | none =>
      rw [step]
      simp only [hx]
      exact ⟨left, h⟩
  | some x =>
      obtain ⟨rfl, rfl, hone, hout⟩ := h.write_eq hx
      rw [step]
      simp only [hx]
      refine ⟨x.drop n, ?_, .inr ?_, fun hnil => absurd hnil hout, h.follows⟩
      · rw [← h.conserved]
        simp only [List.append_assoc]
        rw [← List.append_assoc (x.take n), List.take_append_drop]
      · rw [hone, List.set_cons_zero]

theorem Carries.written (h : l.Carries F enc cut sent taken left) (i : Nat) :
    ∃ left', (l.step F enc (.written i)).Carries F enc cut sent taken left' := by
  rw [step]
  split
  · next hx =>
      obtain ⟨rfl, rfl, hone, hout⟩ := h.write_eq hx
      have hconserved := h.conserved
      rw [hone, List.eraseIdx_cons_zero]
      cases htail : l.outbox.tail with
      | nil =>
          rw [htail] at hconserved
          exact ⟨[], hconserved, .inl rfl, fun _ => ⟨rfl, rfl⟩, h.follows⟩
      | cons frame rest =>
          rw [htail] at hconserved
          exact ⟨frame, hconserved, .inr rfl, nofun, h.follows⟩
  · exact ⟨left, h⟩

theorem Carries.writeFailed (h : l.Carries F enc cut sent taken left) (i : Nat) :
    (l.step F enc (.writeFailed i)).Carries F enc cut sent taken left where
  conserved := h.conserved
  one_write := by
    rw [step]
    rcases h.one_write with hnone | hone
    · exact .inl (by rw [hnone, List.eraseIdx_nil])
    · cases i with
      | zero => exact .inl (by rw [hone, List.eraseIdx_cons_zero])
      | succ i => exact .inr (by rw [hone, List.eraseIdx_cons_succ, List.eraseIdx_nil])
  idle := fun hnil => ⟨by rw [step, (h.idle hnil).1, List.eraseIdx_nil], (h.idle hnil).2⟩
  follows := h.follows

theorem Carries.deliver (h : l.Carries F enc cut sent taken left) (n : Nat) :
    (l.step F enc (.deliver n)).Carries F enc cut sent (taken ++ l.wire.take n) left where
  conserved := by
    rw [← h.conserved, step, List.append_assoc, ← List.append_assoc (l.wire.take n),
      List.take_append_drop]
  one_write := h.one_write
  idle := h.idle
  follows := by
    rcases h.follows with hattached | ⟨hcut, hfollows⟩
    · exact .inl (hattached.arrive _)
    · exact .inr ⟨hcut, hfollows.arrive _⟩

theorem Carries.read (h : l.Carries F enc cut sent taken left) :
    (l.step F enc .read).Carries F enc cut sent taken left where
  conserved := h.conserved
  one_write := h.one_write
  idle := h.idle
  follows := by
    rw [step]
    cases hread : F.read l.receiver with
    | none => exact h.follows
    | some r' =>
        rcases h.follows with hattached | ⟨-, hclosed, -⟩
        · exact .inl ((Format.settle_read hread).symm.trans hattached)
        · rw [Format.read_closed hclosed] at hread
          cases hread

theorem Carries.hangUp (h : l.Carries F enc cut sent taken left) (hcut : cut) :
    (l.step F enc .hangUp).Carries F enc cut sent taken left where
  conserved := h.conserved
  one_write := h.one_write
  idle := h.idle
  follows := .inr ⟨hcut, rfl, h.handled⟩

/-! ## Runs -/

def run (F : Format β η μ) (enc : μ → List β) (l : Link β η μ) (events : List (Event μ)) :
    Link β η μ := events.foldl (step F enc) l

theorem Carries.step {e : Event μ} (h : l.Carries F enc cut sent taken left)
    (hcut : e = .hangUp → cut) :
    ∃ taken' left', (l.step F enc e).Carries F enc cut (sent ++ e.sent) taken' left' := by
  cases e with
  | send m =>
      obtain ⟨left', h'⟩ := h.send m
      exact ⟨taken, left', h'⟩
  | transmit i n =>
      obtain ⟨left', h'⟩ := h.transmit i n
      exact ⟨taken, left', (List.append_nil sent).symm ▸ h'⟩
  | written i =>
      obtain ⟨left', h'⟩ := h.written i
      exact ⟨taken, left', (List.append_nil sent).symm ▸ h'⟩
  | writeFailed i => exact ⟨taken, left, (List.append_nil sent).symm ▸ h.writeFailed i⟩
  | deliver n => exact ⟨_, left, (List.append_nil sent).symm ▸ h.deliver n⟩
  | read => exact ⟨taken, left, (List.append_nil sent).symm ▸ h.read⟩
  | hangUp => exact ⟨taken, left, (List.append_nil sent).symm ▸ h.hangUp (hcut rfl)⟩

theorem Carries.run : ∀ (events : List (Event μ)) {sent : List μ} {l : Link β η μ}
    {taken left : List β}, l.Carries F enc cut sent taken left → (.hangUp ∈ events → cut) →
    ∃ taken' left', (l.run F enc events).Carries F enc cut (sent ++ sentBy events) taken' left'
  | [], sent, l, taken, left, h, _ => ⟨taken, left, (List.append_nil sent).symm ▸ h⟩
  | e :: events, sent, l, taken, left, h, hcut => by
      obtain ⟨taken', left', h'⟩ := h.step fun he : e = .hangUp => hcut (he ▸ List.mem_cons_self)
      rw [sentBy, List.flatMap_cons, ← List.append_assoc]
      exact Carries.run events h' fun hmem => hcut (List.mem_cons_of_mem _ hmem)

theorem carries_run (events : List (Event μ)) (hcut : .hangUp ∈ events → cut) :
    ∃ taken left, (empty.run F enc events).Carries F enc cut (sentBy events) taken left :=
  carries_empty.run events hcut

/-- One write at a time, and what is handled was sent, in order and once. -/
theorem sound {ok : μ → Bool} (events : List (Event μ))
    (hsent : ∀ m ∈ sentBy events, if ok m then F.Reads (enc m) m else F.Refuses (enc m)) :
    (empty.run F enc events).writes.length ≤ 1 ∧
      (empty.run F enc events).receiver.handled <+: (sentBy events).takeWhile ok := by
  obtain ⟨taken, left, h⟩ : ∃ taken left,
      (empty.run F enc events).Carries F enc True (sentBy events) taken left :=
    carries_run events fun _ => trivial
  constructor
  · rcases h.one_write with hnone | hone
    · rw [hnone]
      exact Nat.zero_le 1
    · rw [hone]
      exact le_rfl
  · have hlater := Format.handled_settle_arrive F (Receiver.start.arrive taken)
      ((empty.run F enc events).wire ++
        (left ++ (empty.run F enc events).outbox.tail.flatten))
    rw [Receiver.arrive_arrive, h.conserved, Format.handled_settle_sent hsent] at hlater
    exact h.handled.trans hlater

/-- When nothing is on its way, all of it was handled. -/
theorem complete {ok : μ → Bool} (events : List (Event μ))
    (hsent : ∀ m ∈ sentBy events, if ok m then F.Reads (enc m) m else F.Refuses (enc m))
    (hangs : .hangUp ∉ events) (houtbox : (empty.run F enc events).outbox = [])
    (hwire : (empty.run F enc events).wire = [])
    (hread : F.read (empty.run F enc events).receiver = none) :
    (empty.run F enc events).receiver.handled = (sentBy events).takeWhile ok := by
  obtain ⟨taken, left, h⟩ : ∃ taken left,
      (empty.run F enc events).Carries F enc False (sentBy events) taken left :=
    carries_run events hangs
  have hconserved := h.conserved
  rw [houtbox, hwire, (h.idle houtbox).2, List.nil_append] at hconserved
  simp only [List.tail_nil, List.flatten_nil, List.append_nil] at hconserved
  rcases h.follows with hattached | ⟨hfalse, -⟩
  · rw [Receiver.Attached, Format.settle_idle hread, hconserved] at hattached
    rw [hattached, Format.handled_settle_sent hsent]
  · exact hfalse.elim

end Link

end Framing
