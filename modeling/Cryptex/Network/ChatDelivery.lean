import Cryptex.Network.ChatPayload
import Cryptex.Lib.FinMap

/-!
# Delivery of chat messages

`mark_chat_seen` and the CHAT handler of `network.cpp`: the table of ids that
were seen, the window in which a payload is valid, and how often one payload
reaches the histories.
-/

namespace Cryptex

namespace Chat

/-- Whether the steps of the handler that write files succeed. -/
structure HandlerFaults where
  storeFails : Bool
  attachmentFails : Bool

/-- A CHAT message as it arrives; `none` is a payload that cannot be read. The
clock is read for the checks on the payload and again for the table. -/
structure ChatArrival where
  checkedAt : Int
  now : Int
  wallet : Option ChatWallet
  payload : Option ChatPayload
  faults : HandlerFaults

/-- The table of ids and the two histories. -/
structure ChatState where
  recentChatIds : FinMap Bytes Int
  chatHistory : List (ChatPayload × ParsedMessage)
  mailHistory : List (ChatPayload × ParsedMessage)

namespace ChatState

def empty : ChatState := ⟨∅, [], []⟩

/-- `mark_chat_seen`: the table after it, and whether the id was known. -/
def markChatSeen (recent : FinMap Bytes Int) (messageId : Bytes) (now : Int) :
    FinMap Bytes Int × Bool :=
  let kept := FinMap.keepIf (fun seen => decide (now - seen ≤ 24 * 60 * 60)) recent
  (kept.insert messageId now, (kept.lookup messageId).isSome)

/-- The CHAT handler after the duplicate check. Voice payloads are handled
elsewhere; a step that throws ends it. -/
def deliver (faults : HandlerFaults) (p : ChatPayload) (parsed : ParsedMessage) (s : ChatState) :
    ChatState :=
  let isMail := p.chatType = chatTypeMail
  if isMail ∧ faults.storeFails then s
  else if p.chatType = chatTypeVoiceControl ∨ p.chatType = chatTypeVoiceFrame then s
  else if parsed.content.attachmentBytes ≠ [] ∧ faults.attachmentFails then s
  else if isMail then { s with mailHistory := s.mailHistory ++ [(p, parsed)] }
  else { s with chatHistory := s.chatHistory ++ [(p, parsed)] }

end ChatState

section

variable (lib : ChatLib)

/-- The payload of an arrival that parses, with its message. -/
def ChatArrival.accepted (a : ChatArrival) : Option (ChatPayload × ParsedMessage) :=
  a.payload.bind fun p => (parseChatPayload lib a.wallet a.checkedAt p).map fun parsed => (p, parsed)

/-- The CHAT handler. -/
def ChatState.handleChat (s : ChatState) (a : ChatArrival) : ChatState :=
  match a.accepted lib with
  | none => s
  | some (p, parsed) =>
      let marked := markChatSeen s.recentChatIds parsed.messageId a.now
      let s := { s with recentChatIds := marked.1 }
      if marked.2 then s else s.deliver a.faults p parsed

def ChatState.run (s : ChatState) (arrivals : List ChatArrival) : ChatState :=
  arrivals.foldl (ChatState.handleChat lib) s

end

/-- How often a payload is in the histories. -/
def ChatState.recorded (s : ChatState) (p : ChatPayload) : Nat :=
  (s.chatHistory.map Prod.fst).count p + (s.mailHistory.map Prod.fst).count p

/-! ## The table -/

theorem lookup_markChatSeen (recent : FinMap Bytes Int) (id : Bytes) (now : Int) (id' : Bytes) :
    (ChatState.markChatSeen recent id now).1.lookup id'
      = if id' = id then some now
        else (recent.lookup id').filter fun seen => decide (now - seen ≤ 24 * 60 * 60) := by
  rw [ChatState.markChatSeen, FinMap.lookup_insert_ite, FinMap.lookup_keepIf]

/-- An id that was seen within the last day is known. -/
theorem markChatSeen_known {recent : FinMap Bytes Int} {id : Bytes} {now seen : Int}
    (h : recent.lookup id = some seen) (hrecent : now - seen ≤ 24 * 60 * 60) :
    (ChatState.markChatSeen recent id now).2 = true := by
  rw [ChatState.markChatSeen, FinMap.lookup_keepIf, h, Option.filter_some, if_pos (decide_eq_true hrecent)]
  rfl

/-- The table after an arrival that is accepted. -/
theorem recentChatIds_deliver (faults : HandlerFaults) (p : ChatPayload) (parsed : ParsedMessage)
    (s : ChatState) : (s.deliver faults p parsed).recentChatIds = s.recentChatIds := by
  rw [ChatState.deliver]
  split
  · rfl
  · split
    · rfl
    · split
      · rfl
      · split
        · rfl
        · rfl

/-- A delivery records its own payload at most once more, and no other. -/
theorem recorded_deliver (faults : HandlerFaults) (p : ChatPayload) (parsed : ParsedMessage)
    (s : ChatState) (q : ChatPayload) :
    (s.deliver faults p parsed).recorded q ≤ s.recorded q + if q = p then 1 else 0 := by
  have hcount : (([(p, parsed)] : List (ChatPayload × ParsedMessage)).map Prod.fst).count q
      = if q = p then 1 else 0 := by
    rw [List.map_singleton, List.count_singleton]
    by_cases h : q = p
    · rw [if_pos h, h, beq_self_eq_true, if_pos rfl]
    · rw [if_neg h, if_neg (by simpa using fun h' => h h'.symm)]
  rw [ChatState.deliver]
  split
  · exact Nat.le_add_right _ _
  · split
    · exact Nat.le_add_right _ _
    · split
      · exact Nat.le_add_right _ _
      · split
        · rw [ChatState.recorded, ChatState.recorded]
          dsimp only
          rw [List.map_append, List.count_append, hcount]
          omega
        · rw [ChatState.recorded, ChatState.recorded]
          dsimp only
          rw [List.map_append, List.count_append, hcount]
          omega

/-! ## Runs -/

section

variable (lib : ChatLib)

/-- The accepted payloads with the times of their arrival, the last one first. -/
def ChatArrival.noted (a : ChatArrival) (earlier : List (Int × ChatPayload)) :
    List (Int × ChatPayload) :=
  match a.accepted lib with
  | none => earlier
  | some (p, _) => (a.now, p) :: earlier

/-- A payload that is still accepted does not come back later than a day after
its last arrival. -/
def ChatArrival.Prompt (a : ChatArrival) (earlier : List (Int × ChatPayload)) : Prop :=
  ∀ p parsed, a.accepted lib = some (p, parsed) → 2 ≤ p.version → ∀ t, (t, p) ∈ earlier →
    ∃ t', (t', p) ∈ earlier ∧ a.now - t' ≤ 24 * 60 * 60

def PromptRun : List (Int × ChatPayload) → List ChatArrival → Prop
  | _, [] => True
  | earlier, a :: rest => a.Prompt lib earlier ∧ PromptRun (a.noted lib earlier) rest

/-- What the table and the histories hold of the payloads that arrived until
`clock`. -/
structure Remembers (clock : Int) (earlier : List (Int × ChatPayload)) (s : ChatState) : Prop where
  past : ∀ t p, (t, p) ∈ earlier → t ≤ clock
  known : ∀ t p, (t, p) ∈ earlier → clock - t ≤ 24 * 60 * 60 →
    ∃ seen, s.recentChatIds.lookup (messageId lib p) = some seen ∧ t ≤ seen
  arrived : ∀ p, s.recorded p ≠ 0 → ∃ t, (t, p) ∈ earlier
  once : ∀ p, 2 ≤ p.version → s.recorded p ≤ 1

end

section

variable {lib : ChatLib} {clock : Int} {earlier : List (Int × ChatPayload)} {s : ChatState}

theorem accepted_messageId {a : ChatArrival} {p : ChatPayload} {parsed : ParsedMessage}
    (h : a.accepted lib = some (p, parsed)) : parsed.messageId = messageId lib p := by
  obtain ⟨p', -, hparse⟩ := Option.bind_eq_some_iff.mp h
  obtain ⟨parsed', hparsed, heq⟩ := Option.map_eq_some_iff.mp hparse
  rw [Prod.mk.injEq] at heq
  rw [← heq.1, ← heq.2]
  exact (parseChatPayload_fields hparsed).1

/-- One message keeps what is remembered, when its payload is prompt. -/
theorem Remembers.handleChat (h : Remembers lib clock earlier s) {a : ChatArrival}
    (hclock : clock ≤ a.now) (hprompt : a.Prompt lib earlier) :
    Remembers lib a.now (a.noted lib earlier) (s.handleChat lib a) := by
  rw [ChatArrival.noted, ChatState.handleChat]
  cases haccepted : a.accepted lib with
  | none =>
      exact ⟨fun t p hmem => le_trans (h.past t p hmem) hclock,
        fun t p hmem hrecent => h.known t p hmem (by omega), h.arrived, h.once⟩
  | some entry =>
      obtain ⟨p, parsed⟩ := entry
      have hid := accepted_messageId haccepted
      dsimp only
      rw [hid]
      -- The table keeps the ids of the last day and gains this one.
      have hknown : ∀ t q, (t, q) ∈ (a.now, p) :: earlier → a.now - t ≤ 24 * 60 * 60 →
          ∃ seen, (ChatState.markChatSeen s.recentChatIds (messageId lib p) a.now).1.lookup
            (messageId lib q) = some seen ∧ t ≤ seen := by
        intro t q hmem hrecent
        rw [lookup_markChatSeen]
        split
        · refine ⟨a.now, rfl, ?_⟩
          rcases List.mem_cons.mp hmem with heq | hmem
          · rw [Prod.mk.injEq] at heq
            exact le_of_eq heq.1
          · exact le_trans (h.past t q hmem) hclock
        · next hne =>
            rcases List.mem_cons.mp hmem with heq | hmem
            · rw [Prod.mk.injEq] at heq
              exact absurd (congrArg (messageId lib) heq.2) hne
            · obtain ⟨seen, hseen, hle⟩ := h.known t q hmem (by omega)
              refine ⟨seen, ?_, hle⟩
              rw [hseen, Option.filter_some, if_pos (decide_eq_true (by omega))]
      have hpast : ∀ t q, (t, q) ∈ (a.now, p) :: earlier → t ≤ a.now := by
        intro t q hmem
        rcases List.mem_cons.mp hmem with heq | hmem
        · rw [Prod.mk.injEq] at heq
          exact le_of_eq heq.1
        · exact le_trans (h.past t q hmem) hclock
      have harrived : ∀ q, s.recorded q ≠ 0 → ∃ t, (t, q) ∈ (a.now, p) :: earlier := by
        intro q hrecorded
        obtain ⟨t, hmem⟩ := h.arrived q hrecorded
        exact ⟨t, List.mem_cons_of_mem _ hmem⟩
      split
      · exact ⟨hpast, hknown, harrived, h.once⟩
      · next hnew =>
          -- An unknown id: a prompt payload did not arrive before.
          have hfirst : 2 ≤ p.version → s.recorded p = 0 := by
            intro hversion
            by_contra hrecorded
            obtain ⟨t, hmem⟩ := h.arrived p hrecorded
            obtain ⟨t', hmem', hrecent⟩ := hprompt p parsed haccepted hversion t hmem
            obtain ⟨seen, hseen, hle⟩ := h.known t' p hmem' (by omega)
            exact hnew (markChatSeen_known hseen (by omega))
          refine ⟨hpast, ?_, fun q hrecorded => ?_, fun q hversion => ?_⟩
          · rw [recentChatIds_deliver]
            exact hknown
          · have hle := recorded_deliver a.faults p parsed
              { s with recentChatIds := (ChatState.markChatSeen s.recentChatIds (messageId lib p) a.now).1 } q
            by_cases hq : q = p
            · exact ⟨a.now, hq ▸ List.mem_cons_self⟩
            · rw [if_neg hq] at hle
              exact harrived q fun hzero => hrecorded (Nat.le_zero.mp (hle.trans (le_of_eq hzero)))
          · have hle := recorded_deliver a.faults p parsed
              { s with recentChatIds := (ChatState.markChatSeen s.recentChatIds (messageId lib p) a.now).1 } q
            refine hle.trans ?_
            split
            · next hq =>
                rw [hq] at hversion ⊢
                exact Nat.succ_le_succ (le_of_eq (hfirst hversion))
            · exact h.once q hversion

theorem Remembers.run : ∀ {arrivals : List ChatArrival} {clock : Int}
    {earlier : List (Int × ChatPayload)} {s : ChatState}, Remembers lib clock earlier s →
      (∀ a ∈ arrivals, clock ≤ a.now) → (arrivals.map ChatArrival.now).Pairwise (· ≤ ·) →
      PromptRun lib earlier arrivals →
        ∀ p, 2 ≤ p.version → (s.run lib arrivals).recorded p ≤ 1
  | [], _, _, _, h, _, _, _ => h.once
  | a :: rest, _, _, s, h, hclock, hsorted, hprompt => by
      rw [List.map_cons, List.pairwise_cons] at hsorted
      have hstep := h.handleChat (hclock a List.mem_cons_self) hprompt.1
      have hrest : ∀ b ∈ rest, a.now ≤ b.now := fun b hb =>
        hsorted.1 b.now (List.mem_map_of_mem hb)
      change ∀ p, 2 ≤ p.version → ((s.handleChat lib a).run lib rest).recorded p ≤ 1
      exact Remembers.run hstep hrest hsorted.2 hprompt.2

/-- In a run of the node in which no accepted payload comes back later than a
day after its last arrival, every signed payload is recorded at most once. -/
theorem recorded_at_most_once (lib : ChatLib) (arrivals : List ChatArrival)
    (hsorted : (arrivals.map ChatArrival.now).Pairwise (· ≤ ·)) (hprompt : PromptRun lib [] arrivals)
    (p : ChatPayload) (hversion : 2 ≤ p.version) :
    (ChatState.empty.run lib arrivals).recorded p ≤ 1 := by
  cases arrivals with
  | nil => exact Nat.zero_le _
  | cons a rest =>
      have hempty : Remembers lib a.now [] ChatState.empty :=
        ⟨nofun, nofun, fun p h => absurd rfl h, fun p _ => Nat.zero_le _⟩
      refine hempty.run (fun b hb => ?_) hsorted hprompt p hversion
      rw [List.map_cons, List.pairwise_cons] at hsorted
      rcases List.mem_cons.mp hb with hfirst | hrest
      · exact le_of_eq (congrArg ChatArrival.now hfirst.symm)
      · exact hsorted.1 b.now (List.mem_map_of_mem hrest)

end

/-! ### A payload from a clock that is ahead -/

/-- A library that accepts every signature. -/
def sampleChatLib : ChatLib where
  sha3_512 _ := 0
  verifySignature _ _ _ := true
  pubkeyToAddress pubkey := pubkey
  addressesEqual a b := decide (a = b)
  verifyBlob _ _ _ := true
  sharedSecret _ _ := none
  deriveChatKey _ _ := none
  rsaUnwrap _ _ := none
  aesGcmDecrypt _ _ _ _ _ := none
  deserializeContent body := some (makeTextContent body)

/-- A public message. -/
def publicPayload (timestamp : UInt64) : ChatPayload where
  version := 4
  chatType := chatTypePublic
  flags := chatFlagSigned
  kdfProfile := 0
  cipherProfile := 0
  timestamp := timestamp
  nonce := 7
  sender := [1]
  senderPubkey := [1]
  channel := [2]
  recipient := []
  recipientPubkey := []
  wrappedKey := []
  body := [3]
  iv := []
  authTag := []
  signature := [4]

def arrivalAt (now : Int) (p : ChatPayload) : ChatArrival where
  checkedAt := now
  now := now
  wallet := none
  payload := some p
  faults := ⟨false, false⟩

/-- A payload with a timestamp 300 seconds ahead comes back 86401 seconds
later. -/
theorem not_recorded_at_most_once : ¬ ∀ (lib : ChatLib) (arrivals : List ChatArrival),
    (arrivals.map ChatArrival.now).Pairwise (· ≤ ·) → ∀ p : ChatPayload, 2 ≤ p.version →
      (ChatState.empty.run lib arrivals).recorded p ≤ 1 := by
  intro hall
  have hle := hall sampleChatLib
    [arrivalAt 1000000 (publicPayload 1000300), arrivalAt 1086401 (publicPayload 1000300)]
    (by decide) (publicPayload 1000300) (by decide)
  have htwice : (ChatState.empty.run sampleChatLib
      [arrivalAt 1000000 (publicPayload 1000300), arrivalAt 1086401 (publicPayload 1000300)]).recorded
        (publicPayload 1000300) = 2 := by decide
  omega

/-- The same payload twice within a day. -/
theorem recorded_at_most_once_sample :
    (ChatState.empty.run sampleChatLib
      [arrivalAt 1000000 (publicPayload 1000300), arrivalAt 1086400 (publicPayload 1000300)]).recorded
        (publicPayload 1000300) ≤ 1 := by
  have hprompt : PromptRun sampleChatLib []
      [arrivalAt 1000000 (publicPayload 1000300), arrivalAt 1086400 (publicPayload 1000300)] := by
    refine ⟨?_, ?_, trivial⟩
    · intro p parsed _ _ t hmem
      cases hmem
    · intro p parsed _ _ t hmem
      refine ⟨t, hmem, ?_⟩
      have hnoted : ChatArrival.noted sampleChatLib (arrivalAt 1000000 (publicPayload 1000300)) []
          = [(1000000, publicPayload 1000300)] := by decide
      rw [hnoted, List.mem_singleton, Prod.mk.injEq] at hmem
      rw [hmem.1]
      decide
  exact recorded_at_most_once sampleChatLib _ (by decide) hprompt _ (by decide)

end Chat

end Cryptex
