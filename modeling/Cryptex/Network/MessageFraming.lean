import Cryptex.Lib.Framing
import Cryptex.Types

/-!
# Messages on a connection

How two peers exchange messages: a message is written as a frame of nine bytes
and a payload, one frame at a time, and read in two parts. `messages_in_order`
is about both directions of a connection at once; `reads_frames` about what a
session makes of any bytes that reach it.
-/

namespace Cryptex

namespace Peers

open Framing

/-! ## Messages -/

structure Message where
  /-- `MessageType`; a byte that names no type is kept. -/
  type : UInt8
  payload : Bytes
deriving DecidableEq

namespace Message

/-- The length is cast to 32 bits. -/
def serialize (messageMagic : UInt32) (m : Message) : Bytes :=
  toPaddedBytes 4 messageMagic.toNat ++
    (m.type :: (toPaddedBytes 4 (UInt32.ofNat m.payload.length).toNat ++ m.payload))

inductive Error where
  | messageTooSmall
  | badMagic
  | lengthMismatch
deriving DecidableEq

/-- The sum of the length and nine has 32 bits. -/
def deserialize (messageMagic : UInt32) (data : Bytes) : Except Error Message :=
  if data.length < 9 then .error .messageTooSmall
  else if fromBytes (data.take 4) ≠ messageMagic.toNat then .error .badMagic
  else
    let len := UInt32.ofNat (fromBytes ((data.drop 5).take 4))
    if data.length ≠ (len + 9).toNat then .error .lengthMismatch
    else .ok ⟨data[4]?.getD 0, data.drop 9⟩

end Message

/-! ## One session -/

/-- The `async_read` that is under way. -/
inductive Reading where
  | header
  | body
  | stopped
deriving DecidableEq

/-- What a session writes and reads. -/
structure SessionIo where
  outbox : List Bytes := []
  /-- What is left to write of each `async_write` under way. -/
  writes : List Bytes := []
  reading : Reading := .header
  incomingMagic : UInt32 := 0
  incomingType : UInt8 := 0
  incomingLength : UInt32 := 0
  /-- The messages passed to `handle_message`. -/
  handled : List Message := []

namespace SessionIo

/-- `write_next`. -/
def writeNext (s : SessionIo) : SessionIo :=
  match s.outbox with
  | [] => s
  | raw :: _ => { s with writes := s.writes ++ [raw] }

def send (messageMagic : UInt32) (s : SessionIo) (m : Message) : SessionIo :=
  let raw := m.serialize messageMagic
  let writing := !s.outbox.isEmpty
  let pushed := { s with outbox := s.outbox ++ [raw] }
  if !writing then pushed.writeNext else pushed

/-- The completion of the `i`-th write, without an error. -/
def onWritten (s : SessionIo) (i : Nat) : SessionIo :=
  let popped := { s with outbox := s.outbox.tail, writes := s.writes.eraseIdx i }
  if !popped.outbox.isEmpty then popped.writeNext else popped

/-- The completion of a write with an error: no other write begins. -/
def onWriteFailed (s : SessionIo) (i : Nat) : SessionIo := { s with writes := s.writes.eraseIdx i }

/-- The completion of `read_header`. -/
def onHeader (messageMagic : UInt32) (s : SessionIo) (headerBuf : Bytes) : SessionIo :=
  let s :=
    { s with
      incomingMagic := UInt32.ofNat (fromBytes (headerBuf.take 4))
      incomingType := headerBuf[4]?.getD 0
      incomingLength := UInt32.ofNat (fromBytes ((headerBuf.drop 5).take 4)) }
  if s.incomingMagic ≠ messageMagic ∨ s.incomingLength > 8000000 then { s with reading := .stopped }
  else { s with reading := .body }

/-- The completion of `read_body`. -/
def onBody (s : SessionIo) (body : Bytes) : SessionIo :=
  { s with handled := s.handled ++ [⟨s.incomingType, body⟩], reading := .header }

/-- The completion of a read with an error. -/
def onReadFailed (s : SessionIo) : SessionIo := { s with reading := .stopped }

/-- The size of the buffer to fill. -/
def wanted (s : SessionIo) : Option Nat :=
  match s.reading with
  | .header => some 9
  | .body => some s.incomingLength.toNat
  | .stopped => none

/-- What `send` writes. -/
theorem send_eq (messageMagic : UInt32) (s : SessionIo) (m : Message) :
    s.send messageMagic m =
      { s with
        outbox := s.outbox ++ [m.serialize messageMagic]
        writes := if s.outbox = [] then s.writes ++ [m.serialize messageMagic] else s.writes } := by
  rw [send]
  cases hout : s.outbox with
  | nil => rfl
  | cons raw rest => rfl

theorem onWritten_eq (s : SessionIo) (i : Nat) :
    s.onWritten i =
      { s with
        outbox := s.outbox.tail
        writes := s.writes.eraseIdx i ++ s.outbox.tail.head?.toList } := by
  rw [onWritten]
  cases htail : s.outbox.tail with
  | nil =>
      rw [List.head?_nil, Option.toList_none, List.append_nil]
      rfl
  | cons raw rest => rfl

theorem onHeader_writer {messageMagic : UInt32} (s : SessionIo) (headerBuf : Bytes) :
    (s.onHeader messageMagic headerBuf).outbox = s.outbox ∧
      (s.onHeader messageMagic headerBuf).writes = s.writes := by
  rw [onHeader]
  simp only
  split
  · exact ⟨rfl, rfl⟩
  · exact ⟨rfl, rfl⟩

end SessionIo

/-- A session, and what reached its socket and was not read. -/
structure Plugged where
  session : SessionIo := {}
  arrived : Bytes := []

namespace Plugged

/-- A read completes when its buffer can be filled. -/
def read (messageMagic : UInt32) (p : Plugged) : Plugged :=
  match p.session.wanted with
  | none => p
  | some size =>
      if p.arrived.length < size then p
      else
        { session :=
            match p.session.reading with
            | .header => p.session.onHeader messageMagic (p.arrived.take size)
            | _ => p.session.onBody (p.arrived.take size)
          arrived := p.arrived.drop size }

end Plugged

/-! ## A connection -/

inductive Side where
  | dialer
  | acceptor
deriving DecidableEq

def Side.other : Side → Side
  | .dialer => .acceptor
  | .acceptor => .dialer

/-- Two sessions with a socket each, and what each wrote that has not reached
the other. -/
structure Connection where
  plugged : Side → Plugged
  wire : Side → Bytes

inductive Happening where
  | send (m : Message)
  | transmit (i n : Nat)
  | written (i : Nat)
  | writeFailed (i : Nat)
  /-- What the other side wrote reaches the socket. -/
  | arrive (n : Nat)
  | read
  | readFailed

namespace Connection

def opened : Connection := ⟨fun _ => {}, fun _ => []⟩

def withSession (c : Connection) (side : Side) (s : SessionIo) : Connection :=
  { c with plugged := Function.update c.plugged side { c.plugged side with session := s } }

/-- Something happens on one side. -/
def step (messageMagic : UInt32) (c : Connection) (e : Side × Happening) : Connection :=
  let side := e.1
  let p := c.plugged side
  match e.2 with
  | .send m => c.withSession side (p.session.send messageMagic m)
  | .transmit i n =>
      match p.session.writes[i]? with
      | none => c
      | some left =>
          { c.withSession side { p.session with writes := p.session.writes.set i (left.drop n) } with
            wire := Function.update c.wire side (c.wire side ++ left.take n) }
  | .written i =>
      match p.session.writes[i]? with
      | some [] => c.withSession side (p.session.onWritten i)
      | _ => c
  | .writeFailed i => c.withSession side (p.session.onWriteFailed i)
  | .arrive n =>
      { plugged := Function.update c.plugged side
          { p with arrived := p.arrived ++ (c.wire side.other).take n }
        wire := Function.update c.wire side.other ((c.wire side.other).drop n) }
  | .read => { c with plugged := Function.update c.plugged side (p.read messageMagic) }
  | .readFailed => c.withSession side p.session.onReadFailed

def run (messageMagic : UInt32) (c : Connection) (events : List (Side × Happening)) : Connection :=
  events.foldl (step messageMagic) c

end Connection

/-! ## Frames of messages -/

/-- How a session reads a frame. -/
def messageFormat (messageMagic : UInt32) : Format UInt8 (UInt8 × UInt32) Message where
  headerSize := 9
  headerSize_pos := Nat.succ_pos 8
  readHeader header :=
    let length := UInt32.ofNat (fromBytes ((header.drop 5).take 4))
    if UInt32.ofNat (fromBytes (header.take 4)) ≠ messageMagic ∨ length > 8000000 then none
    else some (header[4]?.getD 0, length)
  bodySize h := h.2.toNat
  message h body := ⟨h.1, body⟩

/-- A message that a session takes. -/
def Message.fits (m : Message) : Bool := m.payload.length ≤ 8000000

namespace Message

variable {messageMagic : UInt32}

def header (messageMagic : UInt32) (m : Message) : Bytes :=
  toPaddedBytes 4 messageMagic.toNat ++
    (m.type :: toPaddedBytes 4 (UInt32.ofNat m.payload.length).toNat)

theorem serialize_eq (m : Message) :
    m.serialize messageMagic = m.header messageMagic ++ m.payload := by
  rw [serialize, header, List.append_assoc, List.cons_append]

theorem length_header (m : Message) : (m.header messageMagic).length = 9 := by
  rw [header, List.length_append, List.length_cons, length_toPaddedBytes, length_toPaddedBytes]

theorem take_header (m : Message) :
    fromBytes ((m.header messageMagic).take 4) = messageMagic.toNat := by
  rw [header, List.take_left' (length_toPaddedBytes 4 _), fromBytes_toPaddedBytes messageMagic.toNat_lt]

theorem drop_header (m : Message) :
    fromBytes (((m.header messageMagic).drop 5).take 4) =
      (UInt32.ofNat m.payload.length).toNat := by
  have hdrop : (m.header messageMagic).drop 5 =
      toPaddedBytes 4 (UInt32.ofNat m.payload.length).toNat := by
    rw [header, ← List.singleton_append, ← List.append_assoc]
    refine List.drop_left' ?_
    rw [List.length_append, length_toPaddedBytes, List.length_singleton]
  rw [hdrop, List.take_of_length_le (length_toPaddedBytes 4 _).le,
    fromBytes_toPaddedBytes (UInt32.toNat_lt _)]

theorem getElem_header (m : Message) : (m.header messageMagic)[4]?.getD 0 = m.type := by
  rw [header, List.getElem?_append_right (length_toPaddedBytes 4 _).le, length_toPaddedBytes]
  rfl

theorem toNat_length {m : Message} (h : m.payload.length < 2 ^ 32) :
    (UInt32.ofNat m.payload.length).toNat = m.payload.length :=
  UInt32.toNat_ofNat_of_lt' h

theorem readHeader_header (m : Message) :
    (messageFormat messageMagic).readHeader (m.header messageMagic) =
      if UInt32.ofNat m.payload.length > 8000000 then none
      else some (m.type, UInt32.ofNat m.payload.length) := by
  simp only [messageFormat, take_header, drop_header, getElem_header, UInt32.ofNat_toNat, ne_eq,
    not_true_eq_false, false_or]

/-- A message is read as it was written, or its header is refused. -/
theorem reads_or_refuses {m : Message} (h : m.payload.length < 2 ^ 32) :
    if m.fits then (messageFormat messageMagic).Reads (m.serialize messageMagic) m
    else (messageFormat messageMagic).Refuses (m.serialize messageMagic) := by
  have hgt : UInt32.ofNat m.payload.length > 8000000 ↔ 8000000 < m.payload.length := by
    rw [gt_iff_lt, UInt32.lt_iff_toNat_lt, toNat_length h]
    rfl
  have hread := @readHeader_header messageMagic m
  rw [serialize_eq]
  cases hfits : m.fits with
  | true =>
      rw [fits, decide_eq_true_eq] at hfits
      rw [if_neg fun hlong => absurd (hgt.mp hlong) (not_lt.mpr hfits)] at hread
      rw [if_pos rfl]
      exact ⟨_, _, rfl, length_header m, _, hread, toNat_length h, rfl⟩
  | false =>
      rw [fits, decide_eq_false_iff_not, not_le] at hfits
      rw [if_pos (hgt.mpr hfits)] at hread
      rw [if_neg Bool.false_ne_true]
      have hsize : (messageFormat messageMagic).headerSize = (m.header messageMagic).length :=
        (length_header m).symm
      refine ⟨?_, ?_⟩
      · rw [hsize, List.length_append]
        exact Nat.le_add_right _ _
      · rw [hsize, List.take_left, hread]

end Message

/-- The three parts of a header. -/
theorem take_nine {data : Bytes} (h : 9 ≤ data.length) :
    data.take 9 = data.take 4 ++ (data[4]?.getD 0 :: (data.drop 5).take 4) := by
  have hlt : 4 < data.length := by omega
  rw [List.getElem?_eq_getElem hlt, Option.getD_some, ← List.take_succ_cons,
    ← List.drop_eq_getElem_cons hlt, ← List.take_add]

theorem toPaddedBytes_word {data : Bytes} (h : data.length = 4) :
    toPaddedBytes 4 (UInt32.ofNat (fromBytes data)).toNat = data := by
  have hlt : fromBytes data < 2 ^ 32 := by
    refine (fromBytes_lt data).trans_eq ?_
    rw [h]
    rfl
  have hround := toPaddedBytes_fromBytes data
  rw [h] at hround
  rw [UInt32.toNat_ofNat_of_lt' hlt, hround]

/-- What is taken for a header is the header of what is read after it. -/
theorem messageFormat_exact (messageMagic : UInt32) :
    (messageFormat messageMagic).Exact (Message.serialize messageMagic) := by
  intro head h body hsize hhead hbody
  have hnine : head.length = 9 := hsize
  simp only [messageFormat] at hhead hbody
  split at hhead
  · cases hhead
  · next hgood =>
      rw [not_or, not_not] at hgood
      cases hhead
      have hlength : UInt32.ofNat body.length = UInt32.ofNat (fromBytes ((head.drop 5).take 4)) := by
        rw [hbody, UInt32.ofNat_toNat]
      have hmagic : toPaddedBytes 4 messageMagic.toNat = head.take 4 := by
        rw [← hgood.1, toPaddedBytes_word (List.length_take_of_le (by omega))]
      have hword : ((head.drop 5).take 4).length = 4 := by
        rw [List.length_take, List.length_drop]
        omega
      rw [Message.serialize_eq]
      congr 1
      have hparts := take_nine hnine.ge
      rw [List.take_of_length_le hnine.le] at hparts
      conv_rhs => rw [hparts]
      rw [Message.header, hmagic]
      simp only [messageFormat]
      rw [hlength, toPaddedBytes_word hword]

/-- What `deserialize` takes is one frame and nothing else. -/
theorem Message.deserialize_eq_ok {messageMagic : UInt32} {data : Bytes} {m : Message} :
    deserialize messageMagic data = .ok m ↔
      data = m.serialize messageMagic ∧ m.payload.length + 9 < 2 ^ 32 := by
  constructor
  · intro h
    rw [deserialize] at h
    by_cases hsmall : data.length < 9
    · rw [if_pos hsmall] at h
      cases h
    rw [if_neg hsmall] at h
    by_cases hmagic : fromBytes (data.take 4) ≠ messageMagic.toNat
    · rw [if_pos hmagic] at h
      cases h
    rw [if_neg hmagic] at h
    by_cases hlength : data.length ≠
        (UInt32.ofNat (fromBytes ((data.drop 5).take 4)) + 9).toNat
    · rw [if_pos hlength] at h
      cases h
    rw [if_neg hlength] at h
    cases h
    rw [not_not] at hmagic hlength
    -- a sum that wraps is less than nine
    have hsum := UInt32.toNat_add (UInt32.ofNat (fromBytes ((data.drop 5).take 4))) 9
    have hbound := UInt32.toNat_lt (UInt32.ofNat (fromBytes ((data.drop 5).take 4)))
    have hnine : (9 : UInt32).toNat = 9 := rfl
    have hword : (UInt32.ofNat (fromBytes ((data.drop 5).take 4))).toNat = data.length - 9 := by
      omega
    refine ⟨?_, by rw [List.length_drop]; omega⟩
    have hpayload : UInt32.ofNat (data.drop 9).length =
        UInt32.ofNat (fromBytes ((data.drop 5).take 4)) := by
      rw [List.length_drop, ← hword, UInt32.ofNat_toNat]
    have htake : toPaddedBytes 4 messageMagic.toNat = data.take 4 := by
      have hround := toPaddedBytes_fromBytes (data.take 4)
      rw [List.length_take_of_le (by omega), hmagic] at hround
      exact hround
    have hfour : ((data.drop 5).take 4).length = 4 := by
      rw [List.length_take, List.length_drop]
      omega
    rw [serialize_eq, header, hpayload, htake, toPaddedBytes_word hfour,
      ← take_nine (not_lt.mp hsmall), List.take_append_drop]
  · rintro ⟨rfl, hlength⟩
    have hlong := @length_header messageMagic m
    have hword := toNat_length (show m.payload.length < 2 ^ 32 by omega)
    have hsum : (UInt32.ofNat m.payload.length + 9).toNat = m.payload.length + 9 := by
      rw [UInt32.toNat_add, hword]
      exact Nat.mod_eq_of_lt hlength
    have hmagic := @take_header messageMagic m
    have hlen := @drop_header messageMagic m
    have htype := @getElem_header messageMagic m
    rw [serialize_eq, deserialize, List.length_append, hlong, if_neg (by omega),
      List.take_append_of_le_length (by omega), hmagic, if_neg (not_not.mpr rfl),
      List.drop_append_of_le_length (by omega), List.take_append_of_le_length (by
        rw [List.length_drop, hlong]), hlen, UInt32.ofNat_toNat]
    simp only [hsum]
    rw [if_neg (by omega), List.getElem?_append_left (by omega), htype, List.drop_left' hlong]

/-! ## Sessions read frames -/

namespace Plugged

variable {messageMagic : UInt32}

/-- What a session waits for. -/
def phase (s : SessionIo) : Phase (UInt8 × UInt32) :=
  match s.reading with
  | .header => .header
  | .body => .body (s.incomingType, s.incomingLength)
  | .stopped => .closed

def receiver (p : Plugged) : Receiver UInt8 (UInt8 × UInt32) Message :=
  ⟨phase p.session, p.arrived, p.session.handled⟩

/-- The next part of a frame reached the socket. -/
def Ready (p : Plugged) : Prop := ∃ size, p.session.wanted = some size ∧ size ≤ p.arrived.length

/-- `read_header` and `read_body` read a frame. -/
theorem receiver_read (p : Plugged) :
    (p.read messageMagic).receiver =
      ((messageFormat messageMagic).read p.receiver).getD p.receiver := by
  cases hreading : p.session.reading with
  | header =>
      rw [read, SessionIo.wanted, hreading]
      simp only
      by_cases hsize : p.arrived.length < 9
      · have hidle : (messageFormat messageMagic).read p.receiver = none := by
          rw [Format.read, receiver, phase, hreading]
          exact if_pos hsize
        rw [if_pos hsize, hidle, Option.getD_none]
      · rw [if_neg hsize, SessionIo.onHeader]
        have henough : (messageFormat messageMagic).headerSize ≤ p.receiver.buffered.length :=
          not_lt.mp hsize
        have hphase : p.receiver.phase = .header := by rw [receiver, phase, hreading]
        by_cases hbad : UInt32.ofNat (fromBytes ((p.arrived.take 9).take 4)) ≠ messageMagic ∨
            UInt32.ofNat (fromBytes (((p.arrived.take 9).drop 5).take 4)) > 8000000
        · rw [Format.read_refused hphase henough (if_pos hbad), if_pos hbad]
          rfl
        · rw [Format.read_header hphase henough (if_neg hbad), if_neg hbad]
          rfl
  | body =>
      rw [read, SessionIo.wanted, hreading]
      simp only
      have hphase : p.receiver.phase = .body (p.session.incomingType, p.session.incomingLength) := by
        rw [receiver, phase, hreading]
      by_cases hsize : p.arrived.length < p.session.incomingLength.toNat
      · have hidle : (messageFormat messageMagic).read p.receiver = none := by
          rw [Format.read, hphase]
          exact if_pos hsize
        rw [if_pos hsize, hidle, Option.getD_none]
      · have henough : (messageFormat messageMagic).bodySize
            (p.session.incomingType, p.session.incomingLength) ≤ p.receiver.buffered.length :=
          not_lt.mp hsize
        rw [if_neg hsize, Format.read_body hphase henough]
        rfl
  | stopped =>
      have hphase : p.receiver.phase = .closed := by rw [receiver, phase, hreading]
      rw [read, SessionIo.wanted, hreading, Format.read_closed hphase, Option.getD_none]

/-- What a session reads changes nothing of what it writes. -/
theorem read_writer (p : Plugged) :
    (p.read messageMagic).session.outbox = p.session.outbox ∧
      (p.read messageMagic).session.writes = p.session.writes := by
  rw [read]
  split
  · exact ⟨rfl, rfl⟩
  · split
    · exact ⟨rfl, rfl⟩
    · cases hreading : p.session.reading with
      | header => exact p.session.onHeader_writer _
      | body => exact ⟨rfl, rfl⟩
      | stopped => exact ⟨rfl, rfl⟩

theorem read_eq_none {p : Plugged} (h : ¬ p.Ready) :
    (messageFormat messageMagic).read p.receiver = none := by
  rw [Format.read, receiver, phase]
  cases hreading : p.session.reading with
  | header =>
      refine if_pos (not_le.mp fun hsize => h ⟨9, ?_, hsize⟩)
      rw [SessionIo.wanted, hreading]
  | body =>
      refine if_pos (not_le.mp fun hsize => h ⟨p.session.incomingLength.toNat, ?_, hsize⟩)
      rw [SessionIo.wanted, hreading]
  | stopped => rfl

end Plugged

/-! ## A connection is two links -/

namespace Connection

variable {messageMagic : UInt32}

/-- What one side writes, on its way to the other. -/
def link (c : Connection) (side : Side) : Link UInt8 (UInt8 × UInt32) Message :=
  { outbox := (c.plugged side).session.outbox
    writes := (c.plugged side).session.writes
    wire := c.wire side
    receiver := (c.plugged side.other).receiver }

/-- What an event means for what `side` writes. -/
def eventOf (side : Side) : Side × Happening → Option (Event Message)
  | (s, .send m) => if s = side then some (.send m) else none
  | (s, .transmit i n) => if s = side then some (.transmit i n) else none
  | (s, .written i) => if s = side then some (.written i) else none
  | (s, .writeFailed i) => if s = side then some (.writeFailed i) else none
  | (s, .arrive n) => if s = side then none else some (.deliver n)
  | (s, .read) => if s = side then none else some .read
  | (s, .readFailed) => if s = side then none else some .hangUp

theorem other_ne (side : Side) : side.other ≠ side := by cases side <;> decide

theorem other_other (side : Side) : side.other.other = side := by cases side <;> rfl

theorem eq_other {s side : Side} (h : s ≠ side) : s = side.other := by
  cases s <;> cases side <;> first | rfl | exact absurd rfl h

theorem link_withSession (c : Connection) (side : Side) (s : SessionIo) :
    (c.withSession side s).link side = { c.link side with outbox := s.outbox, writes := s.writes } := by
  simp only [link, withSession, Function.update_self, Function.update_of_ne (other_ne side)]

theorem link_withSession_other (c : Connection) (side : Side) (s : SessionIo) :
    (c.withSession side.other s).link side =
      { c.link side with receiver := Plugged.receiver { c.plugged side.other with session := s } } := by
  simp only [link, withSession, Function.update_self, Function.update_of_ne (other_ne side).symm]

/-- What a session writes changes nothing of what it reads. -/
theorem link_writes (c : Connection) (side : Side) (outbox writes : List Bytes) :
    (c.withSession side.other
      { (c.plugged side.other).session with outbox := outbox, writes := writes }).link side =
      c.link side := by
  rw [link_withSession_other]
  rfl

/-- Each event is one step of a link, or none. -/
theorem link_step (c : Connection) (e : Side × Happening) (side : Side) :
    (c.step messageMagic e).link side =
      match eventOf side e with
      | none => c.link side
      | some event =>
          (c.link side).step (messageFormat messageMagic) (Message.serialize messageMagic) event := by
  obtain ⟨s, happening⟩ := e
  by_cases hs : s = side
  · subst hs
    cases happening with
    | send m =>
        simp only [step, eventOf, if_pos, link_withSession, SessionIo.send_eq]
        rw [Link.step]
        cases hout : (c.plugged s).session.outbox with
        | nil =>
            simp only [link, hout, if_pos, Link.writeNext]
            rfl
        | cons raw rest => simp only [link, hout, reduceCtorEq, if_false]
    | transmit i n =>
        simp only [step, eventOf, if_pos, Link.step]
        cases hwrite : (c.plugged s).session.writes[i]? with
        | none => simp only [link, hwrite]
        | some left =>
            simp only [link, hwrite, withSession, Function.update_self,
              Function.update_of_ne (other_ne s)]
    | written i =>
        simp only [step, eventOf, if_pos, Link.step]
        split
        · next hwrite =>
            rw [link_withSession, SessionIo.onWritten_eq]
            simp only [link, hwrite, Link.writeNext]
            cases htail : (c.plugged s).session.outbox.tail with
            | nil => simp only [List.head?_nil, Option.toList_none, List.append_nil]
            | cons raw rest => simp only [List.head?_cons, Option.toList_some]
        · next hwrite =>
            split
            · next hdone => exact absurd hdone hwrite
            · rfl
    | writeFailed i =>
        simp only [step, eventOf, if_pos, link_withSession]
        rfl
    | arrive n =>
        simp only [step, eventOf, if_pos, link, Function.update_self,
          Function.update_of_ne (other_ne s), Function.update_of_ne (other_ne s).symm]
    | read =>
        simp only [step, eventOf, if_pos, link, Function.update_self,
          Function.update_of_ne (other_ne s), (Plugged.read_writer _).1,
          (Plugged.read_writer _).2]
    | readFailed =>
        simp only [step, eventOf, if_pos, link_withSession]
        rfl
  · obtain rfl := eq_other hs
    cases happening with
    | send m =>
        simp only [step, eventOf, if_neg (other_ne side), SessionIo.send_eq]
        exact link_writes c side _ _
    | transmit i n =>
        simp only [step, eventOf, if_neg (other_ne side)]
        split
        · rfl
        · next left hwrite =>
            have hwrites := link_writes c side (c.plugged side.other).session.outbox
              ((c.plugged side.other).session.writes.set i (left.drop n))
            simp only [link, Function.update_of_ne (other_ne side).symm] at hwrites ⊢
            exact hwrites
    | written i =>
        simp only [step, eventOf, if_neg (other_ne side), SessionIo.onWritten_eq]
        split
        · exact link_writes c side _ _
        · rfl
    | writeFailed i =>
        simp only [step, eventOf, if_neg (other_ne side), SessionIo.onWriteFailed]
        exact link_writes c side _ _
    | arrive n =>
        simp only [step, eventOf, if_neg (other_ne side), link, Function.update_self, other_other,
          Function.update_of_ne (other_ne side).symm]
        rfl
    | read =>
        simp only [step, eventOf, if_neg (other_ne side), link, Function.update_self,
          Function.update_of_ne (other_ne side).symm, Plugged.receiver_read]
        rfl
    | readFailed =>
        simp only [step, eventOf, if_neg (other_ne side), link_withSession_other]
        rfl

theorem link_run (side : Side) : ∀ (events : List (Side × Happening)) (c : Connection),
    (c.run messageMagic events).link side =
      (c.link side).run (messageFormat messageMagic) (Message.serialize messageMagic)
        (events.filterMap (eventOf side))
  | [], _ => rfl
  | e :: events, c => by
      have hrest := link_run side events (c.step messageMagic e)
      rw [link_step] at hrest
      rw [run, List.foldl_cons]
      cases hevent : eventOf side e with
      | none =>
          rw [hevent] at hrest
          rw [List.filterMap_cons_none hevent]
          exact hrest
      | some event =>
          rw [hevent] at hrest
          rw [List.filterMap_cons_some hevent, Link.run, List.foldl_cons]
          exact hrest

/-- The messages that one side sends. -/
def sentOn (side : Side) (events : List (Side × Happening)) : List Message :=
  events.flatMap fun
    | (s, .send m) => if s = side then [m] else []
    | _ => []

theorem sentBy_eventOf (side : Side) : ∀ events : List (Side × Happening),
    sentBy (events.filterMap (eventOf side)) = sentOn side events
  | [] => rfl
  | (s, happening) :: events => by
      have hrest := sentBy_eventOf side events
      rw [sentBy, sentOn] at hrest ⊢
      rw [List.flatMap_cons, ← hrest]
      by_cases hs : s = side
      · cases happening <;> simp only [List.filterMap_cons, eventOf, if_pos hs] <;> rfl
      · cases happening <;> simp only [List.filterMap_cons, eventOf, if_neg hs] <;> rfl

theorem hangUp_mem {side : Side} {events : List (Side × Happening)}
    (h : .hangUp ∈ events.filterMap (eventOf side)) : (side.other, .readFailed) ∈ events := by
  obtain ⟨⟨s, happening⟩, hmem, hevent⟩ := List.mem_filterMap.mp h
  by_cases hs : s = side
  · cases happening <;> simp only [eventOf, if_pos hs, reduceCtorEq, Option.some.injEq] at hevent
  · cases happening <;>
      simp only [eventOf, if_neg hs, reduceCtorEq, Option.some.injEq] at hevent
    rw [← eq_other hs]
    exact hmem

/-- What holds of a connection of what one side sent. -/
structure Delivers (c : Connection) (side : Side) (sent : List Message) (lost : Prop) : Prop where
  one_write : (c.plugged side).session.writes.length ≤ 1
  in_order : (c.plugged side.other).session.handled <+: sent
  complete : ¬ lost → (c.plugged side).session.outbox = [] → c.wire side = [] →
    ¬ (c.plugged side.other).Ready → (c.plugged side.other).session.handled = sent

/-- Whatever both sides do and however the bytes travel, each side writes one
frame at a time, and the other handles what was sent, in order and once, up to
the first message that is too long. Nothing is missing once nothing is on its
way. -/
theorem messages_in_order (messageMagic : UInt32) (side : Side) (events : List (Side × Happening))
    (hsize : ∀ m ∈ sentOn side events, m.payload.length < 2 ^ 32) :
    (opened.run messageMagic events).Delivers side
      ((sentOn side events).takeWhile Message.fits) ((side.other, .readFailed) ∈ events) := by
  have hrun := @link_run messageMagic side events opened
  have hsent : ∀ m ∈ sentBy (events.filterMap (eventOf side)),
      if m.fits then
        (messageFormat messageMagic).Reads (Message.serialize messageMagic m) m
      else (messageFormat messageMagic).Refuses (Message.serialize messageMagic m) := by
    intro m hm
    rw [sentBy_eventOf] at hm
    exact Message.reads_or_refuses (hsize m hm)
  obtain ⟨hone, horder⟩ := Link.sound _ hsent
  have hcomplete := Link.complete _ hsent
  have hempty : opened.link side = Link.empty := rfl
  rw [← hempty, ← hrun] at hone horder hcomplete
  rw [sentBy_eventOf] at horder hcomplete
  exact
    { one_write := hone
      in_order := horder
      complete := fun hlost houtbox hwire hready =>
        hcomplete (fun hmem => hlost (hangUp_mem hmem)) houtbox hwire
          (Plugged.read_eq_none hready) }

/-- A ping and a chat message, the second sent before the first is written. -/
def pingEvents : List (Side × Happening) :=
  [(.dialer, .send ⟨3, []⟩), (.dialer, .transmit 0 4), (.dialer, .send ⟨11, [1, 2]⟩),
    (.acceptor, .arrive 3), (.dialer, .transmit 0 5), (.dialer, .written 0), (.acceptor, .arrive 9),
    (.acceptor, .read), (.acceptor, .read), (.dialer, .transmit 0 11), (.acceptor, .arrive 11),
    (.acceptor, .read), (.acceptor, .read), (.dialer, .written 0)]

theorem messages_in_order_ping :
    (opened.run 0x43584558 pingEvents).Delivers .dialer [⟨3, []⟩, ⟨11, [1, 2]⟩]
      ((.acceptor, .readFailed) ∈ pingEvents) :=
  messages_in_order 0x43584558 .dialer pingEvents (by decide)

example : ((opened.run 0x43584558 pingEvents).plugged .acceptor).session.handled =
    [⟨3, []⟩, ⟨11, [1, 2]⟩] := by decide

end Connection

/-! ## Any bytes -/

/-- What happens to a session that reads. -/
inductive Arrival where
  | bytes (data : Bytes)
  | read
  | readFailed
deriving DecidableEq

namespace Plugged

def take (messageMagic : UInt32) (p : Plugged) : Arrival → Plugged
  | .bytes data => { p with arrived := p.arrived ++ data }
  | .read => p.read messageMagic
  | .readFailed => { p with session := p.session.onReadFailed }

def takeAll (messageMagic : UInt32) (arrivals : List Arrival) : Plugged :=
  arrivals.foldl (take messageMagic) {}

/-- All that reaches the socket. -/
def bytesOf (arrivals : List Arrival) : Bytes :=
  arrivals.flatMap fun
    | .bytes data => data
    | _ => []

/-- What a session has read of some bytes, and the room that it asked for. -/
structure HasRead (messageMagic : UInt32) (p : Plugged) (data : Bytes) : Prop where
  frames : ∃ rest, data = p.session.handled.flatMap (Message.serialize messageMagic) ++ rest
  fits : ∀ m ∈ p.session.handled, m.fits
  room : ∀ size, p.session.wanted = some size → size ≤ 8000000

variable {messageMagic : UInt32}

theorem consumed_take {p : Plugged} {taken part : Bytes} (a : Arrival)
    (h : p.receiver.Consumed (messageFormat messageMagic) (Message.serialize messageMagic) taken
      part) :
    ∃ part', (p.take messageMagic a).receiver.Consumed (messageFormat messageMagic)
      (Message.serialize messageMagic) (taken ++ bytesOf [a]) part' := by
  cases a with
  | bytes data =>
      rw [bytesOf, List.flatMap_singleton]
      exact ⟨part, h.arrive data⟩
  | read =>
      rw [bytesOf, List.flatMap_singleton, List.append_nil, take, receiver_read]
      cases hread : (messageFormat messageMagic).read p.receiver with
      | none => exact ⟨part, h⟩
      | some r => exact h.read (messageFormat_exact messageMagic) hread
  | readFailed =>
      rw [bytesOf, List.flatMap_singleton, List.append_nil]
      exact ⟨part, h.hangUp⟩

theorem consumed_takeAll (arrivals : List Arrival) :
    ∃ part, (takeAll messageMagic arrivals).receiver.Consumed (messageFormat messageMagic)
      (Message.serialize messageMagic) (bytesOf arrivals) part := by
  induction arrivals using List.reverseRecOn with
  | nil => exact ⟨[], Receiver.consumed_start⟩
  | append_singleton arrivals a ih =>
      obtain ⟨part, h⟩ := ih
      obtain ⟨part', h'⟩ := consumed_take a h
      rw [takeAll, List.foldl_append, bytesOf, List.flatMap_append]
      exact ⟨part', h'⟩

theorem attached_takeAll {arrivals : List Arrival} (h : .readFailed ∉ arrivals) :
    (takeAll messageMagic arrivals).receiver.Attached (messageFormat messageMagic)
      (bytesOf arrivals) := by
  induction arrivals using List.reverseRecOn with
  | nil => rfl
  | append_singleton arrivals a ih =>
      rw [List.mem_append, not_or] at h
      have hbefore := ih h.1
      rw [takeAll, List.foldl_append, bytesOf, List.flatMap_append]
      cases a with
      | bytes data =>
          rw [List.flatMap_singleton]
          exact hbefore.arrive data
      | read =>
          rw [List.flatMap_singleton, List.append_nil, List.foldl_cons, List.foldl_nil, take,
            receiver_read]
          cases hread : (messageFormat messageMagic).read (takeAll messageMagic arrivals).receiver with
          | none =>
              rw [takeAll] at hread
              rw [hread]
              exact hbefore
          | some r =>
              rw [takeAll] at hread
              rw [hread]
              exact (Format.settle_read hread).symm.trans hbefore
      | readFailed => exact absurd (List.mem_singleton_self _) h.2

theorem length_of_readHeader {header : Bytes} {h : UInt8 × UInt32}
    (hread : (messageFormat messageMagic).readHeader header = some h) : h.2.toNat ≤ 8000000 := by
  simp only [messageFormat] at hread
  split at hread
  · cases hread
  · next hgood =>
      cases hread
      exact not_lt.mp (not_or.mp hgood).2

theorem hasRead_takeAll (messageMagic : UInt32) (arrivals : List Arrival) :
    HasRead messageMagic (takeAll messageMagic arrivals) (bytesOf arrivals) := by
  obtain ⟨part, h⟩ := @consumed_takeAll messageMagic arrivals
  refine ⟨⟨_, h.taken_eq⟩, fun m hm => ?_, fun size hsize => ?_⟩
  · obtain ⟨header, body, -, -, head, hread, hbody, rfl⟩ := h.reads m hm
    rw [Message.fits, decide_eq_true_eq]
    exact hbody.symm.trans_le (length_of_readHeader hread)
  · rw [SessionIo.wanted] at hsize
    cases hreading : (takeAll messageMagic arrivals).session.reading with
    | header =>
        rw [hreading] at hsize
        cases hsize
        decide
    | body =>
        rw [hreading] at hsize
        cases hsize
        have hphase := h.body _ (by rw [receiver, phase, hreading])
        exact length_of_readHeader hphase.2
    | stopped =>
        rw [hreading] at hsize
        cases hsize

/-- Whatever reaches a session, it handles the messages whose frames the bytes
begin with, never asks for more room than the longest message, and how the
bytes were cut makes no difference. -/
theorem reads_frames (messageMagic : UInt32) (arrivals others : List Arrival) :
    HasRead messageMagic (takeAll messageMagic arrivals) (bytesOf arrivals) ∧
      (bytesOf others = bytesOf arrivals → .readFailed ∉ arrivals → .readFailed ∉ others →
        ¬ (takeAll messageMagic arrivals).Ready → ¬ (takeAll messageMagic others).Ready →
        (takeAll messageMagic others).receiver = (takeAll messageMagic arrivals).receiver) := by
  refine ⟨hasRead_takeAll messageMagic arrivals, fun hbytes hfailed hfailed' hready hready' => ?_⟩
  have h := @attached_takeAll messageMagic _ hfailed
  have h' := @attached_takeAll messageMagic _ hfailed'
  rw [Receiver.Attached, Format.settle_idle (read_eq_none hready)] at h
  rw [Receiver.Attached, Format.settle_idle (read_eq_none hready')] at h'
  rw [h, h', hbytes]

end Plugged

end Peers

end Cryptex
