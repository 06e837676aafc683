import Cryptex.Bridge.DaemonFrames

/-!
# Paying redemptions

Runs of the daemon in which the native node may accept a payment and the reply
may be lost, and in which the daemon may stop at any moment and start again
from the state that it wrote last.
-/

namespace Cryptex

namespace Bridge

open Interaction Action

/-- A `sendtoaddress` that the native node has accepted. -/
structure ReleasePayment where
  destination : Text
  sats : Nat
  opReturn : Text

/-- The payments so far and the state file. `unsaved` says that a payment was
accepted after the state was last written. -/
structure ReleaseWorld where
  payments : List ReleasePayment
  stored : Option DaemonState
  unsaved : Bool

namespace ReleaseWorld

/-- No payment and no state file. -/
def initial : ReleaseWorld := ⟨[], none, false⟩

def pay (w : ReleaseWorld) (p : ReleasePayment) : ReleaseWorld :=
  { w with payments := w.payments ++ [p], unsaved := true }

def write (w : ReleaseWorld) (s : DaemonState) : ReleaseWorld :=
  { w with stored := some s, unsaved := false }

/-- Each redemption is paid at most once. -/
def PaidOnce (w : ReleaseWorld) : Prop := (w.payments.map ReleasePayment.opReturn).Nodup

/-- A redemption was paid. -/
def Paid (w : ReleaseWorld) (redemptionId : Text) : Prop :=
  ∃ p ∈ w.payments, p.opReturn = releaseMemo redemptionId

end ReleaseWorld

/-- How the outside answers. What is neither a payment nor the state file may be
answered by anything. -/
inductive ReleaseAnswers : ReleaseWorld → (i : Request) → ReleaseWorld → Reply i → Prop
  | paid {w : ReleaseWorld} {destination : Text} {sats : Nat} {opReturn : Text} (txid : Hash256) :
      ReleaseAnswers w (.sendToAddress destination sats opReturn)
        (w.pay ⟨destination, sats, opReturn⟩) (.ok (txidText txid))
  | replyLost {w : ReleaseWorld} {destination : Text} {sats : Nat} {opReturn : Text} (e : PyError) :
      ReleaseAnswers w (.sendToAddress destination sats opReturn)
        (w.pay ⟨destination, sats, opReturn⟩) (.error e)
  | refused {w : ReleaseWorld} {destination : Text} {sats : Nat} {opReturn : Text} (e : PyError) :
      ReleaseAnswers w (.sendToAddress destination sats opReturn) w (.error e)
  | written {w : ReleaseWorld} {s : DaemonState} : ReleaseAnswers w (.writeState s) (w.write s) (.ok ())
  | notWritten {w : ReleaseWorld} {s : DaemonState} (e : PyError) :
      ReleaseAnswers w (.writeState s) w (.error e)
  | read {w : ReleaseWorld} : ReleaseAnswers w .readState w (.ok w.stored)
  | notRead {w : ReleaseWorld} (e : PyError) : ReleaseAnswers w .readState w (.error e)
  | deposits {w : ReleaseWorld} {i : Request} (r : Reply i) : i.OfDeposits → ReleaseAnswers w i w r
  | snapshot {w : ReleaseWorld} {i : Request} (r : Reply i) : i.OfSnapshot → ReleaseAnswers w i w r
  | approval {w : ReleaseWorld} (r : Reply .getBlockchainInfo) :
      ReleaseAnswers w .getBlockchainInfo w r
  | blockNumber {w : ReleaseWorld} (r : Reply .ethBlockNumber) : ReleaseAnswers w .ethBlockNumber w r
  | logs {w : ReleaseWorld} {address topic0 : Text} {fromBlock toBlock : Int}
      (r : Reply (.ethGetLogs address topic0 fromBlock toBlock)) :
      ReleaseAnswers w (.ethGetLogs address topic0 fromBlock toBlock) w r

/-- The reply to every payment that is accepted arrives. -/
def TimelyAnswers (w : ReleaseWorld) (i : Request) (w' : ReleaseWorld) (r : Reply i) : Prop :=
  ReleaseAnswers w i w' r ∧ (w'.payments ≠ w.payments → ∃ v, r = .ok v)

/-- The daemon with all that can happen to it. -/
def releaseService (c : BridgeConfig) : Service Request Reply Daemon PyError ReleaseWorld where
  load := loadDaemon c
  cycle := runCycle c
  answers := ReleaseAnswers
  mayStop _ := True

/-- The daemon when the reply to every accepted payment arrives and it does not
stop between such a payment and the next write of its state. -/
def timelyService (c : BridgeConfig) : Service Request Reply Daemon PyError ReleaseWorld where
  load := loadDaemon c
  cycle := runCycle c
  answers := TimelyAnswers
  mayStop w := w.unsaved = false

/-- Its runs are runs of the daemon. -/
theorem timelyService_reachable {c : BridgeConfig} {start w : ReleaseWorld}
    {ctl : Control Request Reply Daemon PyError} (h : (timelyService c).Reachable start ctl w) :
    (releaseService c).Reachable start ctl w := by
  refine Service.Reachable.mono ?_ ?_ ?_ ?_ h
  · rfl
  · rfl
  · exact fun _ _ _ _ ha => ha.1
  · exact fun _ _ => trivial

/-! ## Answers -/

section Answers

variable {w w' : ReleaseWorld} {i : Request} {r : Reply i}

theorem ReleaseAnswers.eq_of_ofDeposits (h : ReleaseAnswers w i w' r) (hi : i.OfDeposits) : w' = w := by
  cases h with
  | deposits | snapshot | approval | blockNumber | logs => rfl
  | paid | replyLost | refused | written | notWritten | read | notRead => cases hi

theorem ReleaseAnswers.eq_of_ofSnapshot (h : ReleaseAnswers w i w' r) (hi : i.OfSnapshot) : w' = w := by
  cases h with
  | deposits | snapshot | approval | blockNumber | logs => rfl
  | paid | replyLost | refused | written | notWritten | read | notRead => cases hi

/-- A redemption-side question other than a payment changes nothing. -/
theorem ReleaseAnswers.eq_of_ofRedemptions (h : ReleaseAnswers w i w' r) (hi : i.OfRedemptions)
    (hsend : ∀ destination sats opReturn, i ≠ .sendToAddress destination sats opReturn) : w' = w := by
  cases h with
  | deposits | snapshot | approval | blockNumber | logs => rfl
  | paid | replyLost | refused => exact absurd rfl (hsend _ _ _)
  | written | notWritten | read | notRead => cases hi

/-- In a timely run a payment is answered with its transaction or refused. -/
theorem TimelyAnswers.send {destination : Text} {sats : Nat} {opReturn : Text}
    {r : Reply (.sendToAddress destination sats opReturn)}
    (h : TimelyAnswers w (.sendToAddress destination sats opReturn) w' r) :
    (w' = w.pay ⟨destination, sats, opReturn⟩ ∧ ∃ txid, r = .ok (txidText txid)) ∨
      (w' = w ∧ ∃ e, r = .error e) := by
  obtain ⟨ha, hreply⟩ := h
  cases ha with
  | paid txid => exact .inl ⟨rfl, txid, rfl⟩
  | replyLost e =>
      have hchanged : (w.pay ⟨destination, sats, opReturn⟩).payments ≠ w.payments := by
        simp [ReleaseWorld.pay]
      obtain ⟨v, hv⟩ := hreply hchanged
      cases hv
  | refused e => exact .inr ⟨rfl, e, rfl⟩
  | deposits _ hi => cases hi
  | snapshot _ hi => cases hi

theorem ReleaseAnswers.write {s : DaemonState} {r : Reply (.writeState s)}
    (h : ReleaseAnswers w (.writeState s) w' r) :
    (w' = w.write s ∧ r = .ok ()) ∨ (w' = w ∧ ∃ e, r = .error e) := by
  cases h with
  | written => exact .inl ⟨rfl, rfl⟩
  | notWritten e => exact .inr ⟨rfl, e, rfl⟩
  | deposits _ hi => cases hi
  | snapshot _ hi => cases hi

theorem ReleaseAnswers.load {r : Reply .readState} (h : ReleaseAnswers w .readState w' r) :
    w' = w ∧ (r = .ok w.stored ∨ ∃ e, r = .error e) := by
  cases h with
  | read => exact ⟨rfl, .inl rfl⟩
  | notRead e => exact ⟨rfl, .inr ⟨e, rfl⟩⟩
  | deposits _ hi => cases hi
  | snapshot _ hi => cases hi

end Answers

/-! ## The record of what was paid -/

theorem releaseMemo_injective {a b : Text} (h : releaseMemo a = releaseMemo b) : a = b :=
  List.append_cancel_left h

/-- No later scan pays for the redemption: it is processed, or a transaction is
noted for it. -/
def Recorded (s : DaemonState) (redemptionId : Text) : Prop :=
  s.processedRedemptions.contains redemptionId = true ∨
    ∃ entry, s.pendingReleases.get? redemptionId = some entry ∧
      Text.strip (entry.nativeReleaseTxid.getD []) ≠ []

/-- The state has a record of every payment, and no redemption in both lists. -/
structure Books (s : DaemonState) (w : ReleaseWorld) : Prop where
  recorded : ∀ redemptionId, w.Paid redemptionId → Recorded s redemptionId
  apart : ∀ redemptionId, s.processedRedemptions.contains redemptionId = true →
    s.pendingReleases.contains redemptionId = false

/-- What holds at every moment of a timely run. -/
structure Safe (c : BridgeConfig) (w : ReleaseWorld) : Prop where
  once : w.PaidOnce
  saved : w.unsaved = false → Books (w.stored.getD (.initial c)) w

theorem strip_txidText_ne_nil (txid : Hash256) : Text.strip (txidText txid) ≠ [] := by
  rw [txidText, Text.strip_of_not_space]
  · intro h
    have hlength := congrArg List.length h
    rw [Text.length_hexDigits, List.length_nil, Hash256.length_toBytes] at hlength
    omega
  · intro ch hch
    obtain ⟨d, hd, rfl⟩ := Text.mem_hexDigits hch
    exact Text.hexDigit_not_stripped d hd

theorem Books.releases {s s' : DaemonState} {w : ReleaseWorld} (h : Books s w)
    (heq : s'.releases = s.releases) : Books s' w := by
  obtain ⟨hprocessed, hpending⟩ := Prod.mk.inj heq
  refine ⟨fun id hpaid => ?_, fun id => ?_⟩
  · rw [Recorded, hprocessed, hpending]
    exact h.recorded id hpaid
  · rw [hprocessed, hpending]
    exact h.apart id

theorem Books.sorted {s : DaemonState} {w : ReleaseWorld} (h : Books s w) : Books s.sorted w := by
  refine ⟨fun id hpaid => ?_, fun id => ?_⟩
  · rw [Recorded, DaemonState.sorted, OrderedDict.contains, OrderedDict.get?_sorted,
      OrderedDict.get?_sorted]
    exact h.recorded id hpaid
  · rw [DaemonState.sorted, OrderedDict.contains, OrderedDict.contains, OrderedDict.get?_sorted,
      OrderedDict.get?_sorted]
    exact h.apart id

theorem Books.write {s : DaemonState} {w : ReleaseWorld} (h : Books s w) (stored : DaemonState) :
    Books s (w.write stored) := ⟨h.recorded, h.apart⟩

/-- What a submission leaves of the world and of its entry. -/
def Settled (w : ReleaseWorld) (redemptionId : Text) (entry entry' : ReleaseEntry)
    (w' : ReleaseWorld) : Prop :=
  (w' = w ∧ entry'.nativeReleaseTxid = entry.nativeReleaseTxid) ∨
    ∃ (p : ReleasePayment) (txid : Hash256), p.opReturn = releaseMemo redemptionId ∧
      w' = w.pay p ∧ entry'.nativeReleaseTxid = some (txidText txid)

theorem paid_pay {w : ReleaseWorld} {p : ReleasePayment} {redemptionId id : Text}
    (hmemo : p.opReturn = releaseMemo redemptionId) (h : (w.pay p).Paid id) :
    id = redemptionId ∨ w.Paid id := by
  obtain ⟨q, hq, hid⟩ := h
  rcases List.mem_append.mp hq with hq | hq
  · exact .inr ⟨q, hq, hid⟩
  · obtain rfl := List.mem_singleton.mp hq
    exact .inl (releaseMemo_injective (hid.symm.trans hmemo))

theorem Safe.pay {c : BridgeConfig} {w : ReleaseWorld} {p : ReleasePayment} {redemptionId : Text}
    (h : Safe c w) (hmemo : p.opReturn = releaseMemo redemptionId) (hnew : ¬ w.Paid redemptionId) :
    Safe c (w.pay p) := by
  refine ⟨?_, fun hunsaved => nomatch hunsaved⟩
  rw [ReleaseWorld.PaidOnce, ReleaseWorld.pay, List.map_append, List.map_singleton]
  refine h.once.append (List.nodup_singleton _) (List.disjoint_singleton.mpr fun hmem => ?_)
  obtain ⟨q, hq, hid⟩ := List.mem_map.mp hmem
  exact hnew ⟨q, hq, hid.trans hmemo⟩

/-- After a submission everything paid is recorded in the changed entries. -/
theorem recorded_settled {s : DaemonState} {w w' : ReleaseWorld} {redemptionId : Text}
    {entry entry' : ReleaseEntry} (hnew : ¬ w.Paid redemptionId)
    (hrecorded : ∀ id, w.Paid id → Recorded s id) (h : Settled w redemptionId entry entry' w')
    {id : Text} (hpaid : w'.Paid id) :
    Recorded (s.putPendingRelease redemptionId entry') id := by
  have hother : ∀ id, w.Paid id →
      Recorded (s.putPendingRelease redemptionId entry') id := by
    intro id hid
    have hne : id ≠ redemptionId := fun heq => hnew (heq ▸ hid)
    rw [Recorded, DaemonState.putPendingRelease, OrderedDict.get?_insert, if_neg hne]
    exact hrecorded id hid
  rcases h with ⟨rfl, -⟩ | ⟨p, txid, hmemo, rfl, hnoted⟩
  · exact hother id hpaid
  · rcases paid_pay hmemo hpaid with rfl | hid
    · refine .inr ⟨entry', ?_, ?_⟩
      · rw [DaemonState.putPendingRelease, OrderedDict.get?_insert, if_pos rfl]
      · rw [hnoted, Option.getD_some]
        exact strip_txidText_ne_nil txid
    · exact hother id hid

/-! ## The stages of a cycle -/

section Stages

variable {c : BridgeConfig}

/-- The triples of a timely run. -/
abbrev Timely (c : BridgeConfig) {α : Type} (pre : Daemon → ReleaseWorld → Prop) (x : Act α)
    (post : α → Daemon → ReleaseWorld → Prop) (exc : PyError → Daemon → ReleaseWorld → Prop) : Prop :=
  Triple TimelyAnswers (Safe c) pre x post exc

def BooksOf (d : Daemon) (w : ReleaseWorld) : Prop := Books d.state w

theorem timely_setState {pre : Daemon → ReleaseWorld → Prop} {f : DaemonState → DaemonState}
    {post : Unit → Daemon → ReleaseWorld → Prop} {exc : PyError → Daemon → ReleaseWorld → Prop}
    (h : ∀ d w, Safe c w → pre d w → post () { d with state := f d.state } w) :
    Timely c pre (setState f) post exc :=
  .modify h

/-- An answer that leaves the world alone. -/
theorem timely_ask {pre : Daemon → ReleaseWorld → Prop} {i : Request}
    (hsame : ∀ w w' r, ReleaseAnswers w i w' r → w' = w) :
    Timely c pre (call i) (fun _ => pre) (fun _ => pre) := by
  refine .request ?_ ?_
  · rintro d w w' r hsafe hpre ⟨ha, -⟩
    obtain rfl := hsame w w' _ ha
    exact ⟨hsafe, hpre⟩
  · rintro d w w' e hsafe hpre ⟨ha, -⟩
    obtain rfl := hsame w w' _ ha
    exact ⟨hsafe, hpre⟩

theorem timely_deposits {x : Act Unit} (hx : Frame Request.OfDeposits DaemonState.releases x) :
    Timely c BooksOf x (fun _ => BooksOf) (fun _ => BooksOf) := by
  refine .of_within hx ?_ fun d d' w hview h => h.releases hview
  rintro d w i w' r hi hsafe h ⟨ha, -⟩
  obtain rfl := ha.eq_of_ofDeposits hi
  exact ⟨hsafe, h⟩

theorem timely_snapshot : Timely c BooksOf (writeReserveSnapshot c) (fun _ => BooksOf)
    (fun _ => BooksOf) := by
  have hframe : Frame Request.OfSnapshot DaemonState.releases (writeReserveSnapshot c) :=
    frame_writeReserveSnapshot
  refine .of_within hframe ?_ fun d d' w hview h => h.releases hview
  rintro d w i w' r hi hsafe h ⟨ha, -⟩
  obtain rfl := ha.eq_of_ofSnapshot hi
  exact ⟨hsafe, h⟩

theorem timely_send {d : Daemon} {w : ReleaseWorld} {destination : Text} {sats : Nat}
    {redemptionId : Text} (hnew : ¬ w.Paid redemptionId) :
    Timely c (fun d' w' => d' = d ∧ w' = w)
      (call (.sendToAddress destination sats (releaseMemo redemptionId)))
      (fun (txid : Text) d' w' => d' = d ∧ ∃ hash p, txid = txidText hash ∧
        p.opReturn = releaseMemo redemptionId ∧ w' = w.pay p)
      (fun _ d' w' => d' = d ∧ w' = w) := by
  refine .request ?_ ?_
  · rintro d' w' w'' r hsafe ⟨rfl, rfl⟩ ha
    rcases ha.send with ⟨rfl, hash, hr⟩ | ⟨-, e, hr⟩
    · exact ⟨hsafe.pay rfl hnew, rfl, hash, _, Except.ok.inj hr, rfl, rfl⟩
    · cases hr
  · rintro d' w' w'' e hsafe ⟨rfl, rfl⟩ ha
    rcases ha.send with ⟨-, hash, hr⟩ | ⟨rfl, -⟩
    · cases hr
    · exact ⟨hsafe, rfl, rfl⟩

/-- A redemption that was not paid may be submitted. -/
theorem timely_submitNativeRelease {d : Daemon} {w : ReleaseWorld} {redemptionId : Text}
    {entry : ReleaseEntry} (hnew : ¬ w.Paid redemptionId) :
    Timely c (fun d' w' => d' = d ∧ w' = w) (submitNativeRelease redemptionId entry)
      (fun _ d' w' => ∃ entry', Settled w redemptionId entry entry' w' ∧
        d'.state = d.state.putPendingRelease redemptionId entry')
      (fun _ d' w' => d' = d ∧ w' = w) := by
  refine .bind (timely_ask fun _ _ _ ha => ha.eq_of_ofRedemptions trivial nofun) fun approved => ?_
  split
  · refine timely_setState ?_
    rintro d' w' - ⟨rfl, rfl⟩
    exact ⟨{ entry with status := .waitingForNativeChainApproval }, .inl ⟨rfl, rfl⟩, rfl⟩
  · refine .bind (timely_send hnew) fun txid => timely_setState ?_
    rintro d' w' - ⟨rfl, hash, p, htxid, hmemo, rfl⟩
    exact ⟨_, .inr ⟨p, hash, hmemo, rfl, congrArg some htxid⟩, rfl⟩

theorem Books.settled {s : DaemonState} {w w' : ReleaseWorld} {redemptionId : Text}
    {entry entry' : ReleaseEntry} (h : Books s w) (hnew : ¬ w.Paid redemptionId)
    (hopen : s.processedRedemptions.contains redemptionId = false)
    (hsettled : Settled w redemptionId entry entry' w') :
    Books (s.putPendingRelease redemptionId entry') w' := by
  refine ⟨fun id hpaid => recorded_settled hnew h.recorded hsettled hpaid, fun id hprocessed => ?_⟩
  have hne : id ≠ redemptionId := by
    rintro rfl
    exact absurd (hprocessed.symm.trans hopen) (by decide)
  rw [DaemonState.putPendingRelease, OrderedDict.contains, OrderedDict.get?_insert, if_neg hne]
  exact h.apart id hprocessed

/-- An observed redemption keeps the transaction that is noted for it. -/
theorem Books.merge {s : DaemonState} {w : ReleaseWorld} {event : RedemptionEvent} (h : Books s w)
    (hopen : s.processedRedemptions.contains event.redemptionId = false) :
    Books (s.putPendingRelease event.redemptionId
      (mergeEvent (s.pendingReleases.get? event.redemptionId) event)) w := by
  refine ⟨fun id hpaid => ?_, fun id hprocessed => ?_⟩
  · rcases h.recorded id hpaid with hprocessed | ⟨entry, hentry, hnoted⟩
    · exact .inl hprocessed
    · refine .inr ?_
      rw [DaemonState.putPendingRelease, OrderedDict.get?_insert]
      split
      · next heq =>
          rw [← heq, hentry]
          exact ⟨_, rfl, hnoted⟩
      · exact ⟨entry, hentry, hnoted⟩
  · have hne : id ≠ event.redemptionId := by
      rintro rfl
      exact absurd (hprocessed.symm.trans hopen) (by decide)
    rw [DaemonState.putPendingRelease, OrderedDict.contains, OrderedDict.get?_insert, if_neg hne]
    exact h.apart id hprocessed

theorem not_paid_of_merge {s : DaemonState} {w : ReleaseWorld} {event : RedemptionEvent}
    (h : Books s w) (hopen : s.processedRedemptions.contains event.redemptionId = false)
    (hblank : (mergeEvent (s.pendingReleases.get? event.redemptionId) event).nativeReleaseTxid.getD []
      = []) : ¬ w.Paid event.redemptionId := by
  intro hpaid
  rcases h.recorded _ hpaid with hprocessed | ⟨entry, hentry, hnoted⟩
  · exact absurd (hprocessed.symm.trans hopen) (by decide)
  · rw [hentry] at hblank
    rw [show entry.nativeReleaseTxid.getD [] = [] from hblank] at hnoted
    exact hnoted rfl

theorem timely_scanLog {rawLog : RawLog} :
    Timely c BooksOf (scanLog c rawLog) (fun _ => BooksOf) (fun _ => BooksOf) := by
  refine .bind (m := fun _ => BooksOf) (.lift (fun _ _ _ _ _ h => h) fun _ _ _ _ _ h => h)
    fun event => .of_states fun d w hsafe hbooks => ?_
  refine .bind (m := fun r d' w' => r = d ∧ d' = d ∧ w' = w)
    (.get fun d' w' _ h => ⟨h.1, h.1, h.2⟩) fun r => ?_
  by_cases hr : r = d
  · obtain rfl := hr
    split
    · refine .pure ?_
      rintro d' w' - ⟨-, rfl, rfl⟩
      exact hbooks
    · next hopen =>
        have hopen := Bool.eq_false_iff.mpr hopen
        refine .bind (m := fun _ d' w' => w' = w ∧ d' = { r with
            state := r.state.putPendingRelease event.redemptionId
              (mergeEvent (r.state.pendingReleases.get? event.redemptionId) event) })
          (timely_setState ?_) fun _ => ?_
        · rintro d' w' - ⟨-, rfl, rfl⟩
          exact ⟨rfl, rfl⟩
        · split
          · next hsubmit =>
              have hnew := not_paid_of_merge hbooks hopen hsubmit.2
              refine .of_states fun d' w' hsafe hstate => ?_
              obtain ⟨rfl, rfl⟩ := hstate
              refine .conseq (timely_submitNativeRelease hnew) (fun _ _ _ h => h) ?_ ?_
              · rintro _ d' w'' - ⟨entry', hsettled, hstate⟩
                rw [BooksOf, hstate]
                exact (hbooks.merge hopen).settled hnew hopen hsettled
              · rintro e d' w'' - ⟨rfl, rfl⟩
                exact hbooks.merge hopen
          · refine .pure ?_
            rintro d' w' - ⟨rfl, rfl⟩
            exact hbooks.merge hopen
  · intro d' w' hsafe h
    exact absurd h.1 hr

theorem timely_scanBatches {finalizedBlock : Int} : ∀ {batches : Nat} {current : Int},
    Timely c BooksOf (scanBatches c finalizedBlock batches current) (fun _ => BooksOf)
      (fun _ => BooksOf)
  | 0, _ => .pure fun _ _ _ h => h
  | batches + 1, current => by
      rw [scanBatches]
      split
      · refine .bind (m := fun _ => BooksOf) (.lift (fun _ _ _ _ _ h => h) fun _ _ _ _ _ h => h)
          fun contract => ?_
        refine .bind (timely_ask fun _ _ _ ha => ha.eq_of_ofRedemptions trivial
          fun _ _ _ h => by cases h) fun logs => ?_
        refine .bind (.forEach fun rawLog _ => timely_scanLog) fun _ => ?_
        exact .bind (m := fun _ => BooksOf) (timely_setState fun d w _ h => h.releases rfl)
          fun _ => timely_scanBatches
      · exact .pure fun _ _ _ h => h

theorem timely_scanEvmRedemptions :
    Timely c BooksOf (scanEvmRedemptions c) (fun _ => BooksOf) (fun _ => BooksOf) := by
  refine .bind (timely_ask fun _ _ _ ha => ha.eq_of_ofRedemptions trivial nofun)
    fun latestBlock => ?_
  dsimp only
  split
  · exact .pure fun _ _ _ h => h
  · refine .bind (m := fun _ => BooksOf) (.get fun _ _ _ h => h) fun d => ?_
    split
    · exact .pure fun _ _ _ h => h
    · exact timely_scanBatches

/-- Between two rounds of `refresh_pending_releases`, with the entries to come
and the completed ones, which are in both lists until the end. -/
structure Round (entries : List (Text × ReleaseEntry)) (completed : List Text) (s : DaemonState)
    (w : ReleaseWorld) : Prop where
  recorded : ∀ redemptionId, w.Paid redemptionId → Recorded s redemptionId
  both : ∀ redemptionId, s.processedRedemptions.contains redemptionId = true →
    s.pendingReleases.contains redemptionId = true → redemptionId ∈ completed
  done : ∀ redemptionId ∈ completed, s.processedRedemptions.contains redemptionId = true
  current : ∀ e ∈ entries, s.pendingReleases.get? e.1 = some e.2 ∧ e.1 ∉ completed
  nodup : (entries.map Prod.fst).Nodup

theorem Books.round {s : DaemonState} {w : ReleaseWorld} (h : Books s w) :
    Round s.pendingReleases.entries [] s w where
  recorded := h.recorded
  both id hprocessed hpending := absurd (hpending.symm.trans (h.apart id hprocessed)) (by decide)
  done _ hid := absurd hid List.not_mem_nil
  current e he := ⟨OrderedDict.get?_eq_some_iff.mpr he, List.not_mem_nil⟩
  nodup := s.pendingReleases.nodup

section Rounds

variable {redemptionId : Text} {entry entry' : ReleaseEntry} {rest : List (Text × ReleaseEntry)}
  {completed : List Text} {s : DaemonState} {w w' : ReleaseWorld}

theorem Round.tail (h : Round ((redemptionId, entry) :: rest) completed s w) :
    Round rest completed s w :=
  { h with
    current := fun e he => h.current e (List.mem_cons_of_mem _ he)
    nodup := (List.nodup_cons.mp h.nodup).2 }

theorem Round.open_head (h : Round ((redemptionId, entry) :: rest) completed s w) :
    s.processedRedemptions.contains redemptionId = false := by
  obtain ⟨hget, hnot⟩ := h.current _ List.mem_cons_self
  refine Bool.eq_false_iff.mpr fun hprocessed => hnot (h.both _ hprocessed ?_)
  rw [OrderedDict.contains, hget]
  rfl

/-- Nothing was paid for an entry that notes no transaction. -/
theorem Round.not_paid (h : Round ((redemptionId, entry) :: rest) completed s w)
    (hblank : Text.strip (entry.nativeReleaseTxid.getD []) = []) : ¬ w.Paid redemptionId := by
  intro hpaid
  rcases h.recorded _ hpaid with hprocessed | ⟨e, he, hnoted⟩
  · exact absurd (hprocessed.symm.trans h.open_head) (by decide)
  · obtain rfl := Option.some.inj (he.symm.trans (h.current _ List.mem_cons_self).1)
    exact hnoted hblank

/-- The entry of the round is written back. -/
theorem Round.put (h : Round ((redemptionId, entry) :: rest) completed s w)
    (hrecorded : ∀ id, w'.Paid id → Recorded (s.putPendingRelease redemptionId entry') id) :
    Round rest completed (s.putPendingRelease redemptionId entry') w' where
  recorded := hrecorded
  both id hprocessed hpending := by
    refine h.both id hprocessed ?_
    rcases OrderedDict.mem_keys_insert.mp (OrderedDict.contains_iff.mp hpending) with rfl | hmem
    · exact absurd (hprocessed.symm.trans h.open_head) (by decide)
    · exact OrderedDict.contains_iff.mpr hmem
  done := h.done
  current e he := by
    have hne : e.1 ≠ redemptionId := fun heq =>
      (List.nodup_cons.mp h.nodup).1 (List.mem_map.mpr ⟨e, he, heq⟩)
    rw [DaemonState.putPendingRelease, OrderedDict.get?_insert, if_neg hne]
    exact h.current e (List.mem_cons_of_mem _ he)
  nodup := (List.nodup_cons.mp h.nodup).2

/-- Writing an entry back keeps what is recorded while it keeps its
transaction. -/
theorem Round.put_same (h : Round ((redemptionId, entry) :: rest) completed s w)
    (hsame : entry'.nativeReleaseTxid = entry.nativeReleaseTxid) :
    Round rest completed (s.putPendingRelease redemptionId entry') w := by
  refine h.put fun id hpaid => ?_
  rcases h.recorded id hpaid with hprocessed | ⟨e, he, hnoted⟩
  · exact .inl hprocessed
  · refine .inr ?_
    rw [DaemonState.putPendingRelease, OrderedDict.get?_insert]
    split
    · next heq =>
        obtain rfl := Option.some.inj (he.symm.trans (heq ▸ (h.current _ List.mem_cons_self).1))
        exact ⟨entry', rfl, hsame ▸ hnoted⟩
    · exact ⟨e, he, hnoted⟩

/-- A completed entry is in both lists. -/
theorem Round.complete (h : Round rest completed s w)
    (hrest : redemptionId ∉ rest.map Prod.fst) :
    Round rest (completed ++ [redemptionId]) (s.putProcessedRedemption redemptionId entry') w where
  recorded id hpaid := by
    rcases h.recorded id hpaid with hprocessed | hpending
    · refine .inl (OrderedDict.contains_iff.mpr ?_)
      exact OrderedDict.mem_keys_insert.mpr (.inr (OrderedDict.contains_iff.mp hprocessed))
    · exact .inr hpending
  both id hprocessed hpending := by
    rw [List.mem_append, List.mem_singleton]
    rcases OrderedDict.mem_keys_insert.mp (OrderedDict.contains_iff.mp hprocessed) with rfl | hmem
    · exact .inr rfl
    · exact .inl (h.both id (OrderedDict.contains_iff.mpr hmem) hpending)
  done id hid := by
    refine OrderedDict.contains_iff.mpr (OrderedDict.mem_keys_insert.mpr ?_)
    rcases List.mem_append.mp hid with hid | hid
    · exact .inr (OrderedDict.contains_iff.mp (h.done id hid))
    · exact .inl (List.mem_singleton.mp hid)
  current e he := by
    refine ⟨(h.current e he).1, fun hmem => ?_⟩
    rcases List.mem_append.mp hmem with hmem | hmem
    · exact (h.current e he).2 hmem
    · exact hrest (List.mem_map.mpr ⟨e, he, List.mem_singleton.mp hmem⟩)
  nodup := h.nodup

/-- At the end the completed entries are dropped from the pending ones. -/
theorem Round.books (h : Round [] completed s w) : Books (s.dropPendingReleases completed) w where
  recorded id hpaid := by
    rcases h.recorded id hpaid with hprocessed | ⟨e, he, hnoted⟩
    · exact .inl hprocessed
    · by_cases hid : id ∈ completed
      · exact .inl (h.done id hid)
      · refine .inr ⟨e, ?_, hnoted⟩
        rw [DaemonState.dropPendingReleases, OrderedDict.get?_eraseAll, if_neg hid]
        exact he
  apart id hprocessed := by
    rw [DaemonState.dropPendingReleases, OrderedDict.contains, OrderedDict.get?_eraseAll]
    split
    · rfl
    · next hid =>
        exact Bool.eq_false_iff.mpr fun hpending => hid (h.both id hprocessed hpending)

end Rounds

def RoundOf (entries : List (Text × ReleaseEntry)) (completed : List Text) (d : Daemon)
    (w : ReleaseWorld) : Prop :=
  Round entries completed d.state w

/-- A fetch whose exception is caught does not raise. -/
theorem timely_tryFetch {txid : Text} {pre : Daemon → ReleaseWorld → Prop}
    (hcache : ∀ d w cache, pre d w → pre { d with nativeTxCache := cache } w) :
    Timely c pre (tryFetch txid) (fun _ => pre) (fun _ _ _ => False) := by
  have hframe : Frame Request.OfDeposits id (fetchNativeTransaction txid false) :=
    frame_fetchNativeTransaction True.intro false
  refine .attempt (m := fun _ => pre) (.bind (.of_within hframe ?_ ?_) fun _ => .pure ?_)
    fun e => .pure ?_
  · rintro d w i w' r hi hsafe h ⟨ha, -⟩
    obtain rfl := ha.eq_of_ofDeposits hi
    exact ⟨hsafe, h⟩
  · rintro ⟨s, cache⟩ ⟨s', cache'⟩ w hview h
    obtain rfl : s' = s := hview
    exact hcache _ w cache' h
  · exact fun _ _ _ h => h
  · exact fun _ _ _ h => h

/-- No exception leaves a round. -/
theorem timely_refreshRelease {redemptionId : Text} {entry : ReleaseEntry}
    {rest : List (Text × ReleaseEntry)} {completed : List Text} :
    Timely c (RoundOf ((redemptionId, entry) :: rest) completed) (refreshRelease c redemptionId entry)
      (fun done => RoundOf rest (if done then completed ++ [redemptionId] else completed))
      (fun _ _ _ => False) := by
  rw [refreshRelease]
  split
  · next hblank =>
      split
      · refine .of_states fun d w _ hround => ?_
        have hnew := Round.not_paid hround hblank
        refine .bind (m := fun _ => RoundOf rest completed)
          (.attempt (m := fun _ d' w' => d' = d ∧ w' = w) ?_ fun e => timely_setState ?_)
          fun _ => .pure fun _ _ _ h => h
        · refine .conseq (timely_submitNativeRelease hnew) (fun _ _ _ h => h) ?_ fun _ _ _ _ h => h
          rintro _ d' w' - ⟨entry', hsettled, hstate⟩
          rw [RoundOf, hstate]
          exact Round.put hround fun id => recorded_settled hnew hround.recorded hsettled
        · rintro d' w' - ⟨rfl, rfl⟩
          exact Round.put_same hround rfl
      · exact .pure fun _ _ _ h => h.tail
  · refine .bind (m := fun _ => RoundOf ((redemptionId, entry) :: rest) completed)
      (timely_tryFetch fun _ _ _ h => h) fun fetched => ?_
    · cases fetched with
      | error e =>
          exact .bind (m := fun _ => RoundOf rest completed)
            (timely_setState fun _ _ _ h => Round.put_same h rfl) fun _ => .pure fun _ _ _ h => h
      | ok tx =>
          dsimp only
          split
          · refine .bind (m := fun _ d w => RoundOf rest completed d w ∧
              redemptionId ∉ rest.map Prod.fst) (timely_setState fun _ _ _ h => ?_) fun _ => ?_
            · exact ⟨Round.put_same h rfl, (List.nodup_cons.mp h.nodup).1⟩
            · exact .bind (m := fun _ => RoundOf rest (completed ++ [redemptionId]))
                (timely_setState fun _ _ _ h => h.1.complete h.2) fun _ => .pure fun _ _ _ h => h
          · exact .bind (m := fun _ => RoundOf rest completed)
              (timely_setState fun _ _ _ h => Round.put_same h rfl) fun _ => .pure fun _ _ _ h => h

theorem timely_refreshReleases : ∀ {entries : List (Text × ReleaseEntry)} {completed : List Text},
    Timely c (RoundOf entries completed) (refreshReleases c entries completed)
      (fun completed => RoundOf [] completed) (fun _ _ _ => False)
  | [], _ => .pure fun _ _ _ h => h
  | (_, _) :: _, _ => .bind timely_refreshRelease fun _ => timely_refreshReleases

theorem timely_refreshPendingReleases :
    Timely c BooksOf (refreshPendingReleases c) (fun _ => BooksOf) (fun _ => BooksOf) := by
  refine .bind (m := fun (d : Daemon) => RoundOf d.state.pendingReleases.entries [])
    (.get fun _ _ _ h => Books.round h) fun d => ?_
  refine .bind (m := fun completed => RoundOf [] completed)
    (.conseq timely_refreshReleases (fun _ _ _ h => h) (fun _ _ _ _ h => h) fun _ _ _ _ h => h.elim)
    fun completed => ?_
  exact timely_setState fun _ _ _ h => Round.books h

theorem timely_persistState :
    Timely c BooksOf persistState (fun _ => BooksOf) (fun _ => BooksOf) := by
  refine .bind (m := fun d' d w => d' = d ∧ BooksOf d w) (.get fun _ _ _ h => ⟨rfl, h⟩)
    fun d' => .request ?_ ?_
  · rintro d w w' r hsafe ⟨rfl, h⟩ ⟨ha, -⟩
    rcases ha.write with ⟨rfl, -⟩ | ⟨-, e, he⟩
    · exact ⟨⟨hsafe.once, fun _ => (Books.sorted h).write _⟩, Books.write h _⟩
    · cases he
  · rintro d w w' e hsafe ⟨rfl, h⟩ ⟨ha, -⟩
    rcases ha.write with ⟨-, hr⟩ | ⟨rfl, -⟩
    · cases hr
    · exact ⟨hsafe, h⟩

theorem timely_runCycle : Timely c BooksOf (runCycle c) (fun _ => BooksOf) (fun _ => BooksOf) :=
  .bind (timely_deposits frame_refreshPendingMints) fun _ =>
    .bind (timely_deposits frame_scanNativeDeposits) fun _ =>
      .bind timely_scanEvmRedemptions fun _ =>
        .bind timely_refreshPendingReleases fun _ =>
          .bind timely_snapshot fun _ => timely_persistState

end Stages

/-! ## Runs -/

theorem timelyService_keeps (c : BridgeConfig) :
    (timelyService c).Keeps (Safe c) (fun w => w.unsaved = false) BooksOf where
  load w hsafe hstopped := by
    refine ⟨hsafe, ?_⟩
    rintro w' r ⟨ha, -⟩
    obtain ⟨rfl, rfl | ⟨e, rfl⟩⟩ := ha.load
    · exact ⟨hsafe, hsafe.saved hstopped⟩
    · exact ⟨hsafe, hstopped⟩
  cycle := timely_runCycle
  stop _ _ h := h

theorem safe_initial (c : BridgeConfig) : Safe c .initial where
  once := List.nodup_nil
  saved _ :=
    { recorded := fun _ ⟨_, hmem, _⟩ => absurd hmem List.not_mem_nil
      apart := fun _ h => nomatch h }

/-- When the reply to every accepted payment arrives and the daemon does not
stop before it has written its state, no redemption is paid twice. -/
theorem timelyService_paidOnce {c : BridgeConfig} {ctl : Control Request Reply Daemon PyError}
    {w : ReleaseWorld} (h : (timelyService c).Reachable .initial ctl w) : w.PaidOnce :=
  ((timelyService_keeps c).reachable (safe_initial c) rfl h).world.once

/-! ## Samples -/

/-- The log of one redemption. -/
def sampleLog : RawLog :=
  redemptionLog 1 2 3 (ascii "crx1dest") 20000000000 1 ⟨4, 7, 0⟩

/-- An outside with the one redemption, in which every payment is accepted and
answered with `reply`. -/
def sampleAnswer (reply : Except PyError Text) (w : ReleaseWorld) :
    (i : Request) → ReleaseWorld × Reply i
  | .sendToAddress destination sats opReturn => (w.pay ⟨destination, sats, opReturn⟩, reply)
  | .writeState s => (w.write s, .ok ())
  | .readState => (w, .ok w.stored)
  | .getAddressTxids .. => (w, .ok [])
  | .getBlockchainInfo => (w, .ok (some true))
  | .getAddressSummary .. => (w, .ok (some 0))
  | .ethBlockNumber => (w, .ok 20)
  | .ethGetLogs .. => (w, .ok [sampleLog])
  | .castTotalSupply .. => (w, .ok 0)
  | .time => (w, .ok 0)
  | .writeReserveStatus .. => (w, .ok ())
  | .getRawTransaction .. => (w, .error .osError)
  | .castAbiEncode .. => (w, .error .osError)
  | .castKeccak .. => (w, .error .osError)
  | .castIsProcessedDeposit .. => (w, .error .osError)
  | .castMintFromBridge .. => (w, .error .osError)

theorem sampleAnswer_answers {reply : Except PyError Text}
    (hreply : (∃ txid, reply = .ok (txidText txid)) ∨ ∃ e, reply = .error e) (w : ReleaseWorld)
    (i : Request) : ReleaseAnswers w i (sampleAnswer reply w i).1 (sampleAnswer reply w i).2 := by
  cases i with
  | sendToAddress destination sats opReturn =>
      rcases hreply with ⟨txid, rfl⟩ | ⟨e, rfl⟩
      · exact .paid txid
      · exact .replyLost e
  | writeState s => exact .written
  | readState => exact .read
  | getBlockchainInfo => exact .approval _
  | ethBlockNumber => exact .blockNumber _
  | ethGetLogs => exact .logs _
  | getAddressSummary | castTotalSupply | writeReserveStatus => exact .snapshot _ trivial
  | getAddressTxids | time | getRawTransaction | castAbiEncode | castKeccak | castIsProcessedDeposit
  | castMintFromBridge => exact .deposits _ trivial

/-- The reply to the payment is lost, and the next cycle pays again. -/
theorem not_releaseService_paidOnce : ∃ c ctl w,
    (releaseService c).Reachable .initial ctl w ∧ ¬ w.PaidOnce := by
  refine ⟨sampleConfig, _, _, Service.Reachable.played
    (sampleAnswer_answers (.inr ⟨.osError, rfl⟩)) rfl 2, ?_⟩
  show ¬ List.Nodup _
  decide +kernel

/-- A payment whose reply arrives is not made again by three cycles. -/
theorem timelyService_paidOnce_sample : ∃ ctl w, (timelyService sampleConfig).Reachable .initial ctl w ∧
    w.payments.length = 1 ∧ w.PaidOnce := by
  have hanswers : ∀ w i, (timelyService sampleConfig).answers w i
      (sampleAnswer (.ok (txidText 5)) w i).1 (sampleAnswer (.ok (txidText 5)) w i).2 := by
    refine fun w i => ⟨sampleAnswer_answers (.inl ⟨5, rfl⟩) w i, fun hne => ?_⟩
    cases i with
    | sendToAddress => exact ⟨_, rfl⟩
    | _ => exact absurd rfl hne
  have hreach := Service.Reachable.played hanswers (rfl : Service.play _ _ .initial = _) 3
  exact ⟨_, _, hreach, by decide +kernel, timelyService_paidOnce hreach⟩

end Bridge

end Cryptex
