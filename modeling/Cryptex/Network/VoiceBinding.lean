import Cryptex.Network.VoiceWire

/-!
# The party of a voice call

Who a call is bound to over any sequence of signals and local operations, and
which signals keep it bound.
-/

namespace Cryptex

open Encoding Chat

namespace Voice

/-! ## Events -/

/-- An address with the key it belongs to. -/
structure Party where
  address : Bytes
  pubkey : Bytes
deriving DecidableEq

/-- A signal that the CHAT handler passes on: the payload is a voice control
message that parses and could be decrypted. -/
structure AuthenticSignal (lib : ChatLib) where
  signal : CallSignal
  payload : ChatPayload
  parsed : ParsedMessage
  wallet : Option ChatWallet
  checkedAt : Int
  type_eq : payload.chatType = chatTypeVoiceControl
  parses : parseChatPayload lib wallet checkedAt payload = some parsed
  decrypted : parsed.decrypted = true
  content : parseSignalContent parsed.content = some signal

inductive VoiceEvent (lib : ChatLib) where
  | signal (now : UInt64) (a : AuthenticSignal lib) (peerLabel : Option Bytes)
  | start (now : UInt64) (wallet : Option ChatWallet) (r : StartRequest)
  | accept (now : UInt64) (wallet : Option ChatWallet)
  | decline (now : UInt64) (wallet : Option ChatWallet) (note : Bytes)
  | endCall (now : UInt64) (wallet : Option ChatWallet) (note : Bytes)

variable {lib : ChatLib}

/-- The authenticated sender. -/
def AuthenticSignal.sender (a : AuthenticSignal lib) : Party :=
  ⟨a.payload.sender, a.payload.senderPubkey⟩

theorem AuthenticSignal.pubkey_ne_nil (a : AuthenticSignal lib) : a.sender.pubkey ≠ [] :=
  (validateCommonPayload_fields
    ((parseChatPayload_fields a.parses).2.2.2 (version_le_of_decrypted a.parses a.decrypted))).1

theorem AuthenticSignal.senderAddress (a : AuthenticSignal lib) :
    a.parsed.senderAddress = a.sender.address := (parseChatPayload_fields a.parses).2.1

theorem AuthenticSignal.remotePubkey (a : AuthenticSignal lib) :
    remotePubkey a.signal a.payload = some a.sender.pubkey := if_pos a.pubkey_ne_nil

namespace VoiceEvent

def run (s : VoiceState) : VoiceEvent lib → VoiceStep
  | signal now a peerLabel =>
      handleVoiceSignal lib now a.wallet a.signal a.parsed a.payload peerLabel s
  | start now wallet r => startVoiceCall lib now wallet r s
  | accept now wallet => acceptVoiceCall lib now wallet s
  | decline now wallet note => declineVoiceCall now wallet note s
  | endCall now wallet note => endVoiceCall now wallet note s

/-- Who a call that begins with this event is with. -/
def party : VoiceEvent lib → Party
  | signal _ a _ => a.sender
  | start _ _ r => ⟨r.recipientAddress, r.recipientPubkey⟩
  | _ => ⟨[], []⟩

end VoiceEvent

/-! ## What a signal does -/

/-- The signal is about the call, or may begin one. -/
def Concerns (signal : CallSignal) (call : VoiceCallInfo) : Prop :=
  signal.type ≠ .other ∧ (call.active = true → call.callId = signal.callId) ∧
    (signal.type ≠ .offer → call.active = true)

/-- The call with the key that an answer names. -/
def rekeyed (a : AuthenticSignal lib) (call : VoiceCallInfo) : VoiceCallInfo :=
  { call with remotePubkeyB64 := base64Encode a.sender.pubkey }

/-- What `handle_voice_signal` does with an authentic signal. -/
inductive SignalEffect (now : UInt64) (a : AuthenticSignal lib) (peerLabel : Option Bytes)
    (s : VoiceState) : VoiceStep → Prop where
  | ignored (hnot : ¬ Concerns a.signal s.call) :
      SignalEffect now a peerLabel s ⟨s, .ignored, none⟩
  | cleared (status : Bytes) (hconcerns : Concerns a.signal s.call)
      (hoffer : a.signal.type = .offer →
        offerSessionKey lib a.wallet a.signal a.parsed a.sender.pubkey = .error status)
      (hanswer : a.signal.type = .answer →
        answerSession lib a.wallet (rekeyed a s.call) = none) :
      SignalEffect now a peerLabel s ⟨Voice.cleared status, .cleared, none⟩
  | offered (key : Bytes) (htype : a.signal.type = .offer) (hconcerns : Concerns a.signal s.call)
      (hkey : offerSessionKey lib a.wallet a.signal a.parsed a.sender.pubkey = .ok key) :
      SignalEffect now a peerLabel s
        ⟨⟨offeredCall now a.signal a.parsed a.sender.pubkey key peerLabel, []⟩, .offered, none⟩
  | answered (call : VoiceCallInfo) (htype : a.signal.type = .answer)
      (hconcerns : Concerns a.signal s.call)
      (hsession : answerSession lib a.wallet (rekeyed a s.call) = some call) :
      SignalEffect now a peerLabel s
        ⟨⟨answeredCall now a.signal peerLabel call, s.inbox⟩, .answered, none⟩

theorem not_concerns_of_inactive {signal : CallSignal} {call : VoiceCallInfo}
    (htype : signal.type ≠ .offer) (h : call.active = false ∨ call.callId ≠ signal.callId) :
    ¬ Concerns signal call := by
  rintro ⟨-, hid, hactive⟩
  have hactive' := hactive htype
  rcases h with hinactive | hne
  · rw [hinactive] at hactive'
    cases hactive'
  · exact hne (hid hactive')

theorem concerns_of_active {signal : CallSignal} {call : VoiceCallInfo}
    (htype : signal.type ≠ .other) (h : ¬ (call.active = false ∨ call.callId ≠ signal.callId)) :
    Concerns signal call := by
  rw [not_or, Bool.not_eq_false, not_not] at h
  exact ⟨htype, fun _ => h.2, fun _ => h.1⟩

theorem signalEffect (now : UInt64) (a : AuthenticSignal lib) (peerLabel : Option Bytes)
    (s : VoiceState) :
    SignalEffect now a peerLabel s
      (handleVoiceSignal lib now a.wallet a.signal a.parsed a.payload peerLabel s) := by
  rw [handleVoiceSignal, a.remotePubkey]
  dsimp only
  cases htype : a.signal.type with
  | offer =>
      dsimp only
      split
      · next hother =>
          exact .ignored fun hconcerns => hother.2 (hconcerns.2.1 hother.1)
      · next hother =>
          have hconcerns : Concerns a.signal s.call :=
            ⟨fun h => (by rw [htype] at h; cases h),
              fun hactive => not_not.mp fun hne => hother ⟨hactive, hne⟩,
              fun hne => absurd htype hne⟩
          split
          · next status hstatus =>
              exact .cleared status hconcerns (fun _ => hstatus)
                fun h => (by rw [htype] at h; cases h)
          · next key hkey => exact .offered key htype hconcerns hkey
  | answer =>
      have hoffer : a.signal.type ≠ .offer := fun h => by rw [htype] at h; cases h
      have hother : a.signal.type ≠ .other := fun h => by rw [htype] at h; cases h
      dsimp only
      split
      · next hnot => exact .ignored (not_concerns_of_inactive hoffer hnot)
      · next hnot =>
          rw [if_pos a.pubkey_ne_nil]
          split
          · next hsession =>
              exact .cleared _ (concerns_of_active hother hnot) (fun h => absurd h hoffer)
                fun _ => hsession
          · next call hsession =>
              exact .answered call htype (concerns_of_active hother hnot) hsession
  | decline =>
      have hoffer : a.signal.type ≠ .offer := fun h => by rw [htype] at h; cases h
      have hother : a.signal.type ≠ .other := fun h => by rw [htype] at h; cases h
      dsimp only
      split
      · next hnot => exact .ignored (not_concerns_of_inactive hoffer hnot)
      · next hnot =>
          exact .cleared _ (concerns_of_active hother hnot) (fun h => absurd h hoffer)
            fun h => (by rw [htype] at h; cases h)
  | hangup =>
      have hoffer : a.signal.type ≠ .offer := fun h => by rw [htype] at h; cases h
      have hother : a.signal.type ≠ .other := fun h => by rw [htype] at h; cases h
      dsimp only
      split
      · next hnot => exact .ignored (not_concerns_of_inactive hoffer hnot)
      · next hnot =>
          exact .cleared _ (concerns_of_active hother hnot) (fun h => absurd h hoffer)
            fun h => (by rw [htype] at h; cases h)
  | other => exact .ignored fun hconcerns => hconcerns.1 htype

/-- The key agreement of an answer changes the session key only. -/
theorem answerSession_fields {wallet : Option ChatWallet} {call call' : VoiceCallInfo}
    (h : answerSession lib wallet call = some call') :
    call'.active = call.active ∧ call'.remoteAddress = call.remoteAddress ∧
      call'.remotePubkeyB64 = call.remotePubkeyB64 := by
  rw [answerSession.eq_def] at h
  split at h
  · rw [← Option.some.inj h]
    exact ⟨rfl, rfl, rfl⟩
  · split at h
    · rw [← Option.some.inj h]
      exact ⟨rfl, rfl, rfl⟩
    · split at h
      · rw [← Option.some.inj h]
        exact ⟨rfl, rfl, rfl⟩
      · split at h
        · cases h
        · rw [← Option.some.inj h]
          exact ⟨rfl, rfl, rfl⟩

theorem answerSession_of_ready {wallet : Option ChatWallet} {call : VoiceCallInfo}
    (h : call.sessionReady = true) : answerSession lib wallet call = some call :=
  if_pos (.inl h)

/-! ## What a local operation does -/

/-- What the four local operations do; a call that is started is with `party`. -/
inductive LocalEffect (party : Party) (s : VoiceState) : VoiceStep → Prop where
  | ignored (status : Bytes) :
      LocalEffect party s ⟨{ s with call := { s.call with status := status } }, .ignored, none⟩
  | cleared (status : Bytes) (sent : Option CallSignal) :
      LocalEffect party s ⟨Voice.cleared status, .cleared, sent⟩
  | started (call : VoiceCallInfo) (sent : Option CallSignal) (hactive : call.active = true)
      (hincoming : call.incoming = false) (hconnected : call.connected = false)
      (haddress : call.remoteAddress = party.address)
      (hkey : call.remotePubkeyB64 = base64Encode party.pubkey) :
      LocalEffect party s ⟨⟨call, s.inbox⟩, .started, sent⟩
  | accepted (now : UInt64) (sent : Option CallSignal) (hactive : s.call.active = true)
      (hincoming : s.call.incoming = true) :
      LocalEffect party s
        ⟨{ s with call :=
            { s.call with
              connected := true
              ringing := false
              status := chars "connected"
              connectedAt := now
              lastSignalAt := now } }, .accepted, sent⟩

theorem LocalEffect.unchanged (party : Party) (s : VoiceState) :
    LocalEffect party s ⟨s, .ignored, none⟩ := .ignored s.call.status

theorem startEffect (now : UInt64) (wallet : Option ChatWallet) (r : StartRequest)
    (s : VoiceState) :
    LocalEffect ⟨r.recipientAddress, r.recipientPubkey⟩ s (startVoiceCall lib now wallet r s) := by
  rw [startVoiceCall.eq_def]
  split
  · exact .unchanged _ s
  · split
    · exact .unchanged _ s
    · split
      · exact .unchanged _ s
      · dsimp only
        split
        · exact .cleared _ none
        · split
          · exact .started _ none rfl rfl rfl rfl rfl
          · exact .cleared _ none
          · exact .started _ _ rfl rfl rfl rfl rfl

theorem acceptEffect (party : Party) (now : UInt64) (wallet : Option ChatWallet) (s : VoiceState) :
    LocalEffect party s (acceptVoiceCall lib now wallet s) := by
  rw [acceptVoiceCall.eq_def]
  split
  · exact .unchanged _ s
  · split
    · exact .unchanged _ s
    · next hringing =>
        obtain ⟨hactive, hincoming, -⟩ := not_not.mp hringing
        split
        · exact .ignored _
        · split
          · exact .ignored _
          · exact .accepted now _ hactive hincoming

theorem leaveEffect (party : Party) (type : SignalType) (status : Bytes) (now : UInt64)
    (wallet : Option ChatWallet) (note : Bytes) (s : VoiceState) :
    LocalEffect party s (leaveVoiceCall type status now wallet note s) := by
  rw [leaveVoiceCall.eq_def]
  split
  · exact .unchanged _ s
  · split
    · exact .unchanged _ s
    · exact .cleared status _

/-! ## The binding -/

/-- The addresses are the same string or parse to the same address. -/
def SameAddress (lib : ChatLib) (a b : Bytes) : Prop := a = b ∨ lib.addressesEqual a b = true

/-- How the call began, with whom, and whether it was accepted here. -/
structure Binding where
  offered : Bool
  party : Party
  accepted : Bool
deriving DecidableEq

def bindingAfter (event : VoiceEvent lib) (outcome : CallOutcome) (b : Option Binding) :
    Option Binding :=
  match outcome with
  | .offered => some ⟨true, event.party, false⟩
  | .started => some ⟨false, event.party, false⟩
  | .accepted => b.map fun b => { b with accepted := true }
  | .cleared => none
  | .ignored => b
  | .answered => b

/-- The remote fields of an active call denote the party it began with, and an
offered call is connected only if it was accepted. -/
def Bound (lib : ChatLib) (call : VoiceCallInfo) : Option Binding → Prop
  | none => call.active = false
  | some b =>
      call.active = true ∧ SameAddress lib call.remoteAddress b.party.address ∧
        call.remotePubkeyB64 = base64Encode b.party.pubkey ∧
        (b.offered = true → call.connected = true → b.accepted = true)

/-- A signal from another party than the one of the call leaves the call as it is. -/
def Respects (s : VoiceState) (b : Option Binding) : VoiceEvent lib → Prop
  | .signal now a peerLabel =>
      ∀ binding, b = some binding → a.sender.pubkey ≠ binding.party.pubkey →
        ((VoiceEvent.signal now a peerLabel).run s).state.call = s.call
  | _ => True

/-- Every state of the run keeps the binding. -/
def BoundRun : VoiceState → Option Binding → List (VoiceEvent lib) → Prop
  | s, b, [] => Bound lib s.call b
  | s, b, event :: events =>
      Bound lib s.call b ∧ Respects s b event ∧
        BoundRun (event.run s).state (bindingAfter event (event.run s).outcome b) events

/-- A signal about an active call is from the party of the call, an offer that
is taken names its sender, and an answer is not about a call that waits to be
accepted here. -/
def Honest (s : VoiceState) : VoiceEvent lib → Prop
  | .signal _ a _ =>
      Concerns a.signal s.call →
        (s.call.active = true → base64Encode a.sender.pubkey = s.call.remotePubkeyB64) ∧
        (a.signal.type = .offer →
          (∃ key, offerSessionKey lib a.wallet a.signal a.parsed a.sender.pubkey = .ok key) →
          SameAddress lib (offerRemoteAddress a.signal a.parsed) a.sender.address) ∧
        (a.signal.type = .answer → s.call.incoming = true → s.call.connected = true)
  | _ => True

def HonestRun : VoiceState → List (VoiceEvent lib) → Prop
  | _, [] => True
  | s, event :: events => Honest s event ∧ HonestRun (event.run s).state events

/-! ## One step -/

/-- What the flags of the call say about how it began. -/
structure Tracks (call : VoiceCallInfo) (b : Binding) : Prop where
  incoming : call.incoming = true → b.offered = true ∧ call.sessionReady = true
  accepted : b.accepted = true → call.connected = true
  offered : b.offered = true → call.incoming = true ∨ b.accepted = true

def Tracked (call : VoiceCallInfo) (b : Option Binding) : Prop :=
  ∀ binding, b = some binding → Tracks call binding

theorem Bound.exists_binding {call : VoiceCallInfo} {b : Option Binding} (h : Bound lib call b)
    (hactive : call.active = true) : ∃ binding, b = some binding := by
  cases b with
  | none => rw [h] at hactive; cases hactive
  | some binding => exact ⟨binding, rfl⟩

theorem LocalEffect.bound {party : Party} {s : VoiceState} {step : VoiceStep}
    (heffect : LocalEffect party s step) {event : VoiceEvent lib} (hparty : event.party = party)
    {b : Option Binding} (hbound : Bound lib s.call b) :
    Bound lib step.state.call (bindingAfter event step.outcome b) := by
  cases heffect with
  | ignored status =>
      cases b with
      | none => exact hbound
      | some binding => exact hbound
  | cleared status sent => rfl
  | started call sent hactive hincoming hconnected haddress hkey =>
      rw [bindingAfter, hparty]
      exact ⟨hactive, .inl haddress, hkey, fun h => by cases h⟩
  | accepted now sent hactive hincoming =>
      obtain ⟨binding, rfl⟩ := hbound.exists_binding hactive
      exact ⟨hbound.1, hbound.2.1, hbound.2.2.1, fun _ _ => rfl⟩

theorem LocalEffect.tracked {party : Party} {s : VoiceState} {step : VoiceStep}
    (heffect : LocalEffect party s step) (event : VoiceEvent lib) {b : Option Binding}
    (htracked : Tracked s.call b) :
    Tracked step.state.call (bindingAfter event step.outcome b) := by
  cases heffect with
  | ignored status =>
      intro binding hb
      obtain ⟨hincoming, haccepted, hoffered⟩ := htracked binding hb
      exact ⟨hincoming, haccepted, hoffered⟩
  | cleared status sent =>
      intro binding hb
      cases hb
  | started call sent hactive hincoming hconnected haddress hkey =>
      intro binding hb
      rw [← Option.some.inj hb]
      refine ⟨fun h => ?_, fun h => ?_, fun h => ?_⟩
      · rw [hincoming] at h
        cases h
      · cases h
      · cases h
  | accepted now sent hactive hincoming =>
      intro binding hb
      obtain ⟨before, hbefore, rfl⟩ := Option.map_eq_some_iff.mp hb
      obtain ⟨hincoming, haccepted, hoffered⟩ := htracked before hbefore
      exact ⟨hincoming, fun _ => rfl, fun _ => .inr rfl⟩

theorem SignalEffect.tracked {now : UInt64} {a : AuthenticSignal lib} {peerLabel : Option Bytes}
    {s : VoiceState} {step : VoiceStep} (heffect : SignalEffect now a peerLabel s step)
    {b : Option Binding} (htracked : Tracked s.call b)
    (hbound : Bound lib step.state.call (bindingAfter (.signal now a peerLabel) step.outcome b)) :
    Tracked step.state.call (bindingAfter (.signal now a peerLabel) step.outcome b) := by
  cases heffect with
  | ignored hnot => exact htracked
  | cleared status hconcerns hoffer hanswer =>
      intro binding hb
      cases hb
  | offered key htype hconcerns hkey =>
      intro binding hb
      rw [← Option.some.inj hb]
      exact ⟨fun _ => ⟨rfl, rfl⟩, fun h => (by cases h), fun _ => .inl rfl⟩
  | answered call htype hconcerns hsession =>
      intro binding hb
      have hb' : b = some binding := hb
      subst hb'
      exact ⟨fun h => (by cases h), fun _ => rfl, fun h => .inr (hbound.2.2.2 h rfl)⟩

/-- While the call is bound, its key is the sender's if the sender is its party. -/
theorem Bound.pubkey_iff {call : VoiceCallInfo} {binding : Binding}
    (h : Bound lib call (some binding)) (pubkey : Bytes) :
    base64Encode pubkey = call.remotePubkeyB64 ↔ pubkey = binding.party.pubkey := by
  rw [h.2.2.1]
  exact ⟨fun h => base64Encode_injective h, fun h => by rw [h]⟩

theorem respects_of_honest {now : UInt64} {a : AuthenticSignal lib} {peerLabel : Option Bytes}
    {s : VoiceState} {b : Option Binding} (hbound : Bound lib s.call b)
    (hconcerns : Concerns a.signal s.call) (hhonest : Honest s (.signal now a peerLabel)) :
    ∀ binding, b = some binding → a.sender.pubkey = binding.party.pubkey := by
  rintro binding rfl
  exact (hbound.pubkey_iff _).mp ((hhonest hconcerns).1 hbound.1)

theorem honest_key {a : AuthenticSignal lib} {s : VoiceState} {b : Option Binding}
    {call : VoiceCallInfo} (hbound : Bound lib s.call b)
    (hkept : ∀ binding, b = some binding → a.sender.pubkey ≠ binding.party.pubkey →
      call = s.call)
    (hchanged : call.active = true → call.remotePubkeyB64 = base64Encode a.sender.pubkey)
    (hactive : s.call.active = true) : base64Encode a.sender.pubkey = s.call.remotePubkeyB64 := by
  obtain ⟨binding, rfl⟩ := hbound.exists_binding hactive
  by_contra hne
  have hcall := hkept binding rfl fun h => hne ((hbound.pubkey_iff _).mpr h)
  rw [hcall] at hchanged
  exact hne (hchanged hactive).symm

/-- A signal keeps the binding exactly if it is honest. -/
theorem SignalEffect.bound_iff {now : UInt64} {a : AuthenticSignal lib} {peerLabel : Option Bytes}
    {s : VoiceState} {step : VoiceStep} (heffect : SignalEffect now a peerLabel s step)
    {b : Option Binding} (hbound : Bound lib s.call b) (htracked : Tracked s.call b) :
    ((∀ binding, b = some binding → a.sender.pubkey ≠ binding.party.pubkey →
        step.state.call = s.call) ∧
      Bound lib step.state.call (bindingAfter (.signal now a peerLabel) step.outcome b)) ↔
      Honest s (.signal now a peerLabel) := by
  cases heffect with
  | ignored hnot =>
      exact ⟨fun _ hconcerns => absurd hconcerns hnot, fun _ => ⟨fun _ _ _ => rfl, hbound⟩⟩
  | cleared status hconcerns hoffer hanswer =>
      constructor
      · rintro ⟨hkept, -⟩ -
        refine ⟨honest_key hbound hkept (fun h => by cases h), fun htype => ?_, fun htype => ?_⟩
        · rintro ⟨key, hkey⟩
          rw [hoffer htype] at hkey
          cases hkey
        · intro hincoming
          have hnone := hanswer htype
          have hactive := hconcerns.2.2 fun h => by rw [htype] at h; cases h
          obtain ⟨binding, rfl⟩ := hbound.exists_binding hactive
          have hready := ((htracked binding rfl).incoming hincoming).2
          have hsome : answerSession lib a.wallet (rekeyed a s.call) = some (rekeyed a s.call) :=
            answerSession_of_ready hready
          rw [hnone] at hsome
          cases hsome
      · intro hhonest
        exact ⟨fun binding hb hne => absurd (respects_of_honest hbound hconcerns hhonest binding hb)
          hne, rfl⟩
  | offered key htype hconcerns hkey =>
      constructor
      · rintro ⟨hkept, hafter⟩ -
        refine ⟨honest_key hbound hkept fun _ => rfl, fun _ _ => hafter.2.1, fun h => ?_⟩
        rw [htype] at h
        cases h
      · intro hhonest
        refine ⟨fun binding hb hne =>
          absurd (respects_of_honest hbound hconcerns hhonest binding hb) hne, rfl, ?_, rfl,
          fun _ h => by cases h⟩
        exact (hhonest hconcerns).2.1 htype ⟨key, hkey⟩
  | answered call htype hconcerns hsession =>
      obtain ⟨hactive, haddress, hpubkey⟩ := answerSession_fields hsession
      have hactive' : s.call.active = true := hconcerns.2.2 fun h => by rw [htype] at h; cases h
      obtain ⟨binding, rfl⟩ := hbound.exists_binding hactive'
      constructor
      · rintro ⟨hkept, hafter⟩ -
        refine ⟨honest_key hbound hkept fun _ => hpubkey, fun h => ?_, fun _ hincoming => ?_⟩
        · rw [htype] at h
          cases h
        · have hoffered := ((htracked binding rfl).incoming hincoming).1
          exact (htracked binding rfl).accepted (hafter.2.2.2 hoffered rfl)
      · intro hhonest
        have hparty := respects_of_honest hbound hconcerns hhonest binding rfl
        refine ⟨fun _ hb hne => ?_, hactive.trans hactive', ?_, ?_, fun hoffered _ => ?_⟩
        · rw [← Option.some.inj hb] at hne
          exact absurd hparty hne
        · rw [show (answeredCall now a.signal peerLabel call).remoteAddress = s.call.remoteAddress
            from haddress]
          exact hbound.2.1
        · exact hpubkey.trans (congrArg base64Encode hparty)
        · rcases (htracked binding rfl).offered hoffered with hincoming | haccepted
          · exact hbound.2.2.2 hoffered ((hhonest hconcerns).2.2 htype hincoming)
          · exact haccepted

/-! ## The run -/

theorem localEffect (s : VoiceState) {event : VoiceEvent lib}
    (hlocal : ∀ now a peerLabel, event ≠ .signal now a peerLabel) :
    LocalEffect event.party s (event.run s) := by
  cases event with
  | signal now a peerLabel => exact absurd rfl (hlocal now a peerLabel)
  | start now wallet r => exact startEffect now wallet r s
  | accept now wallet => exact acceptEffect _ now wallet s
  | decline now wallet note => exact leaveEffect _ _ _ now wallet note s
  | endCall now wallet note => exact leaveEffect _ _ _ now wallet note s

theorem step_tracked {s : VoiceState} {b : Option Binding} (event : VoiceEvent lib)
    (htracked : Tracked s.call b)
    (hbound : Bound lib (event.run s).state.call (bindingAfter event (event.run s).outcome b)) :
    Tracked (event.run s).state.call (bindingAfter event (event.run s).outcome b) := by
  cases event with
  | signal now a peerLabel => exact (signalEffect now a peerLabel s).tracked htracked hbound
  | start now wallet r => exact (localEffect s (by rintro _ _ _ ⟨⟩)).tracked _ htracked
  | accept now wallet => exact (localEffect s (by rintro _ _ _ ⟨⟩)).tracked _ htracked
  | decline now wallet note => exact (localEffect s (by rintro _ _ _ ⟨⟩)).tracked _ htracked
  | endCall now wallet note => exact (localEffect s (by rintro _ _ _ ⟨⟩)).tracked _ htracked

theorem step_bound_iff {s : VoiceState} {b : Option Binding} (event : VoiceEvent lib)
    (hbound : Bound lib s.call b) (htracked : Tracked s.call b) :
    (Respects s b event ∧
      Bound lib (event.run s).state.call (bindingAfter event (event.run s).outcome b)) ↔
      Honest s event := by
  have hlocal : (∀ now a peerLabel, event ≠ .signal now a peerLabel) →
      Bound lib (event.run s).state.call (bindingAfter event (event.run s).outcome b) :=
    fun h => (localEffect s h).bound rfl hbound
  cases event with
  | signal now a peerLabel => exact (signalEffect now a peerLabel s).bound_iff hbound htracked
  | start now wallet r => exact iff_of_true ⟨trivial, hlocal (by rintro _ _ _ ⟨⟩)⟩ trivial
  | accept now wallet => exact iff_of_true ⟨trivial, hlocal (by rintro _ _ _ ⟨⟩)⟩ trivial
  | decline now wallet note => exact iff_of_true ⟨trivial, hlocal (by rintro _ _ _ ⟨⟩)⟩ trivial
  | endCall now wallet note => exact iff_of_true ⟨trivial, hlocal (by rintro _ _ _ ⟨⟩)⟩ trivial

theorem BoundRun.head {s : VoiceState} {b : Option Binding} {events : List (VoiceEvent lib)}
    (h : BoundRun s b events) : Bound lib s.call b := by
  cases events with
  | nil => exact h
  | cons event events => exact h.1

theorem boundRun_iff_from : ∀ (events : List (VoiceEvent lib)) (s : VoiceState)
    (b : Option Binding), Bound lib s.call b → Tracked s.call b →
      (BoundRun s b events ↔ HonestRun s events)
  | [], s, b, hbound, htracked => iff_of_true hbound trivial
  | event :: events, s, b, hbound, htracked => by
      have hstep := step_bound_iff event hbound htracked
      rw [BoundRun, HonestRun]
      constructor
      · rintro ⟨-, hrespects, hrun⟩
        have hafter := hrun.head
        exact ⟨hstep.mp ⟨hrespects, hafter⟩,
          (boundRun_iff_from events _ _ hafter (step_tracked event htracked hafter)).mp hrun⟩
      · rintro ⟨hhonest, hrun⟩
        obtain ⟨hrespects, hafter⟩ := hstep.mpr hhonest
        exact ⟨hbound, hrespects,
          (boundRun_iff_from events _ _ hafter (step_tracked event htracked hafter)).mpr hrun⟩

/-- From an idle node, every state keeps the party of the call exactly if every
signal is honest when it arrives. -/
theorem call_bound_iff (events : List (VoiceEvent lib)) :
    BoundRun idle none events ↔ HonestRun idle events :=
  boundRun_iff_from events idle none rfl fun _ h => by cases h

/-! ## A caller that answers its own call -/

/-- Addresses are keys, every signature is valid and nothing is encrypted. -/
def sampleVoiceLib : ChatLib where
  sha3_512 _ := 0
  verifySignature _ _ _ := false
  pubkeyToAddress pubkey := pubkey
  addressesEqual a b := decide (a = b)
  verifyBlob _ _ _ := true
  sharedSecret _ _ := some []
  deriveChatKey _ _ := some []
  rsaUnwrap _ _ := none
  aesGcmDecrypt body _ _ _ _ := some body
  deserializeContent body := some ⟨.voiceControl, [], body⟩

def sampleVoiceWallet : ChatWallet where
  address := [9]
  privkey := [9]
  addresses := [[9]]
  privkeys := [[9]]
  pubkeys := [[9]]
  chatRsaPrivateKeyPem := []
  chatRsaPublicKeyPem := []

def sampleSignal (type : SignalType) : CallSignal where
  type := type
  timestamp := 1000000
  callId := [5]
  callerAddress := [1]
  calleeAddress := [9]
  peerLabel := []

/-- A signal from the party with address and key `[1]`. -/
def signalPayload (signal : CallSignal) : ChatPayload where
  version := 4
  chatType := chatTypeVoiceControl
  flags := chatFlagSigned ||| chatFlagEncrypted
  kdfProfile := 0
  cipherProfile := 0
  timestamp := 1000000
  nonce := 7
  sender := [1]
  senderPubkey := [1]
  channel := []
  recipient := [9]
  recipientPubkey := [9]
  wrappedKey := []
  body := serializeSignal signal
  iv := [1]
  authTag := [1]
  signature := [4]

def parsedSignal (signal : CallSignal) : ParsedMessage where
  legacy := false
  authenticated := true
  encrypted := true
  decrypted := true
  encryptionMode := .ecdh
  senderAddress := [1]
  recipientAddress := [9]
  channel := []
  timestamp := 1000000
  nonce := 7
  messageId := messageId sampleVoiceLib (signalPayload signal)
  content := ⟨.voiceControl, [], serializeSignal signal⟩

def sampleOffer : AuthenticSignal sampleVoiceLib where
  signal := sampleSignal .offer
  payload := signalPayload (sampleSignal .offer)
  parsed := parsedSignal (sampleSignal .offer)
  wallet := some sampleVoiceWallet
  checkedAt := 1000000
  type_eq := rfl
  parses := by decide +kernel
  decrypted := rfl
  content := by decide +kernel

def sampleAnswer : AuthenticSignal sampleVoiceLib where
  signal := sampleSignal .answer
  payload := signalPayload (sampleSignal .answer)
  parsed := parsedSignal (sampleSignal .answer)
  wallet := some sampleVoiceWallet
  checkedAt := 1000000
  type_eq := rfl
  parses := by decide +kernel
  decrypted := rfl
  content := by decide +kernel

/-- The caller answers its own offer, and the call is connected. -/
theorem not_call_bound : ¬ ∀ (lib : ChatLib) (events : List (VoiceEvent lib)),
    BoundRun idle none events := by
  intro hall
  obtain ⟨-, -, -, -, hlast⟩ := hall sampleVoiceLib
    [.signal 1000000 sampleOffer none, .signal 1000001 sampleAnswer none]
  have hoffered : ((VoiceEvent.signal 1000000 sampleOffer none).run idle).outcome = .offered := by
    decide
  have hanswered : ((VoiceEvent.signal 1000001 sampleAnswer none).run
      ((VoiceEvent.signal 1000000 sampleOffer none).run idle).state).outcome = .answered := by
    decide
  have hconnected : ((VoiceEvent.signal 1000001 sampleAnswer none).run
      ((VoiceEvent.signal 1000000 sampleOffer none).run idle).state).state.call.connected = true := by
    decide
  rw [hoffered, hanswered] at hlast
  exact absurd (hlast.2.2.2 rfl hconnected) Bool.false_ne_true

end Voice

end Cryptex
