import Cryptex.Network.MailReceipts

/-!
# Verified receipts

Which pairs of a message and a replica have proved their storage over a run, and
when only these have verified receipts.
-/

namespace Cryptex

open Encoding Chat

namespace Mail

variable {lib : MailLib}

/-! ## What was challenged and proved -/

/-- The challenges that were issued, and the pairs that answered one. -/
structure Ledger where
  issued : List PendingMailProofChallenge
  earned : List (Bytes × Bytes)

def challenges (log : List MailAction) : List PendingMailProofChallenge :=
  log.filterMap fun action =>
    match action with
    | .slashed _ _ => none
    | .challenged pending => some pending

section

variable (lib : MailLib)

/-- The node has a copy of the challenged message whose proof hash is the one
of the answer. -/
def answers (env : MailEnv) (n : MailNode) (answer : DhtMailProofPayload)
    (pending : PendingMailProofChallenge) : Bool :=
  pending.challengeId = answer.challengeId &&
    (loadDistributedMailRecords lib.toCrypto n.recordLines env.now none 0).any fun record =>
      record.messageId = pending.messageId &&
        mailStorageProofHashHex lib record pending.nonceB64 = answer.proofHashHex

/-- The pairs whose challenge is answered by an event. -/
def earnedBy (env : MailEnv) (n : MailNode) (issued : List PendingMailProofChallenge) :
    MailEvent → List (Bytes × Bytes)
  | .proof answer => (issued.filter (answers lib env n answer)).map PendingMailProofChallenge.key
  | _ => []

def Ledger.after (l : Ledger) (env : MailEnv) (n : MailNode) (event : MailEvent) : Ledger where
  issued := l.issued ++ challenges (event.run lib env n).log
  earned := l.earned ++ earnedBy lib env n l.issued event

/-- Every verified receipt was earned. -/
def EarnedOnly (earned : List (Bytes × Bytes)) (n : MailNode) : Prop :=
  ∀ receipt ∈ n.mailStorageReceipts none, receipt.verified = true → receipt.key ∈ earned

/-- In every state of the run the verified receipts were earned before. -/
def EarnedRun : MailNode → Ledger → List (MailEnv × MailEvent) → Prop
  | n, l, [] => EarnedOnly l.earned n
  | n, l, (env, event) :: events =>
      EarnedOnly l.earned n ∧
        EarnedRun (event.run lib env n).node (l.after lib env n event) events

/-- The time of verification that a proof leaves in the receipt it is about. -/
def provedAt (answer : DhtMailProofPayload) (receipt : MailStorageReceipt) : UInt64 :=
  if trustedForProof lib receipt then answer.respondedAt else receipt.verifiedAt

/-- A receipt of a peer does not come with a time of verification, and a proof
does not name another replica than the challenged one, unless the pair has been
earned. -/
def Earning (env : MailEnv) (n : MailNode) (earned : List (Bytes × Bytes)) : MailEvent → Prop
  | .receipt remoteLabel received =>
      received.messageId ≠ [] → received.verifiedAt ≠ 0 →
        (receivedReceipt remoteLabel received).key ∈ earned
  | .proof answer =>
      ∀ pending receipt, ProofMatch lib env answer n pending receipt →
        provedAt lib answer (relabelled env answer receipt) ≠ 0 →
        (relabelled env answer receipt).key = pending.key ∨
          (relabelled env answer receipt).key ∈ earned
  | _ => True

def EarningRun : MailNode → Ledger → List (MailEnv × MailEvent) → Prop
  | _, _, [] => True
  | n, l, (env, event) :: events =>
      Earning lib env n (l.after lib env n event).earned event ∧
        EarningRun (event.run lib env n).node (l.after lib env n event) events

end

/-! ## One step -/

theorem EarnedOnly.mono {earned earned' : List (Bytes × Bytes)} {n : MailNode}
    (h : EarnedOnly earned n) (hsub : earned ⊆ earned') : EarnedOnly earned' n :=
  fun receipt hreceipt hverified => hsub (h receipt hreceipt hverified)

theorem EarnedOnly.upsert {earned : List (Bytes × Bytes)} {n : MailNode}
    (h : EarnedOnly earned n) {receipt : MailStorageReceipt}
    (hreceipt : receipt.verifiedAt ≠ 0 → receipt.key ∈ earned) :
    EarnedOnly earned (n.upsert receipt) := by
  intro other hother hverified
  rcases mem_load_upsert hother with rfl | hold
  · exact hreceipt (of_decide_eq_true hverified)
  · exact h other hold hverified

theorem EarnedOnly.of_upsert {earned : List (Bytes × Bytes)} {n : MailNode}
    {receipt : MailStorageReceipt} (h : EarnedOnly earned (n.upsert receipt))
    (hverified : receipt.verifiedAt ≠ 0) : receipt.key ∈ earned :=
  h receipt.reloaded (mem_load_upsert_self receipt n.receiptLines) (decide_eq_true hverified)

/-- A receipt of the node has its time of verification for a reason. -/
theorem EarnedOnly.of_mem {earned : List (Bytes × Bytes)} {n : MailNode} (h : EarnedOnly earned n)
    {messageId : Option Bytes} {receipt : MailStorageReceipt}
    (hreceipt : receipt ∈ n.mailStorageReceipts messageId) (hverified : receipt.verifiedAt ≠ 0) :
    receipt.key ∈ earned := by
  have hload := (mem_loadMailStorageReceipts.mp hreceipt).1
  refine h receipt hload ?_
  rw [← verified_of_mem_load hload]
  exact decide_eq_true hverified

theorem IssueEffect.earnedOnly {receipt : MailStorageReceipt} {n : MailNode} {step : MailStep}
    (heffect : IssueEffect lib receipt n step) {earned : List (Bytes × Bytes)}
    (hn : EarnedOnly earned n) (hreceipt : receipt.verifiedAt ≠ 0 → receipt.key ∈ earned) :
    EarnedOnly earned step.node := by
  have hupdated : ∀ {updated : MailStorageReceipt}, Carries receipt updated →
      updated.verifiedAt ≠ 0 → updated.key ∈ earned := by
    intro updated hcarries hverified
    rw [hcarries.verifiedAt] at hverified
    rw [hcarries.key]
    exact hreceipt hverified
  cases heffect with
  | nothing => exact hn
  | slashed updated hcarries hopen hinvalid hslashed => exact hn.upsert (hupdated hcarries)
  | refreshed updated hcarries hopen hslashed => exact hn.upsert (hupdated hcarries)
  | challenged updated pending hcarries hopen hslashed hpending =>
      exact EarnedOnly.upsert hn (hupdated hcarries)

theorem IssueEffect.of_earnedOnly {receipt : MailStorageReceipt} {n : MailNode} {step : MailStep}
    (heffect : IssueEffect lib receipt (n.upsert receipt) step) {earned : List (Bytes × Bytes)}
    (hn : EarnedOnly earned step.node) (hverified : receipt.verifiedAt ≠ 0) :
    receipt.key ∈ earned := by
  have hupdated : ∀ {updated : MailStorageReceipt} {n' : MailNode}, Carries receipt updated →
      EarnedOnly earned (n'.upsert updated) → receipt.key ∈ earned := by
    intro updated n' hcarries hn'
    rw [← hcarries.key]
    exact hn'.of_upsert (by rw [hcarries.verifiedAt]; exact hverified)
  cases heffect with
  | nothing => exact hn.of_upsert hverified
  | slashed updated hcarries hopen hinvalid hslashed => exact hupdated hcarries hn
  | refreshed updated hcarries hopen hslashed => exact hupdated hcarries hn
  | challenged updated pending hcarries hopen hslashed hpending => exact hupdated hcarries hn

/-- A slashed receipt keeps its time of verification. -/
theorem slashMailReceipt_earnedOnly_iff {earned : List (Bytes × Bytes)} {env : MailEnv}
    {n : MailNode} (reason evidence : Bytes) (receipt : MailStorageReceipt)
    (hn : EarnedOnly earned n) :
    EarnedOnly earned (slashMailReceipt lib env reason evidence receipt n).node ↔
      (receipt.verifiedAt ≠ 0 → receipt.key ∈ earned) :=
  ⟨fun h hverified => h.of_upsert hverified, fun h => hn.upsert h⟩

theorem dhtMailStore_earnedOnly {earned : List (Bytes × Bytes)} {n : MailNode} (env : MailEnv)
    (remoteLabel : Bytes) (record : DistributedMailRecord) (hn : EarnedOnly earned n) :
    EarnedOnly earned (dhtMailStore lib env remoteLabel record n).node := by
  rw [dhtMailStore]
  split
  · exact hn
  · dsimp only
    refine EarnedOnly.upsert (fun receipt hreceipt => hn receipt hreceipt) fun hverified => ?_
    refine absurd ?_ hverified
    rw [ownReceipt, (refreshMailReceiptBond_carries env _).1.verifiedAt, signMailReceipt.eq_def]
    split
    · rfl
    · split
      · rfl
      · rfl

theorem dhtMailReceipt_earnedOnly_iff {earned : List (Bytes × Bytes)} {n : MailNode}
    (env : MailEnv) (remoteLabel : Bytes) (received : MailStorageReceipt)
    (hn : EarnedOnly earned n) :
    EarnedOnly earned (dhtMailReceipt lib env remoteLabel received n).node ↔
      (received.messageId ≠ [] → received.verifiedAt ≠ 0 →
        (receivedReceipt remoteLabel received).key ∈ earned) := by
  rw [dhtMailReceipt]
  split
  · next hempty => exact iff_of_true hn fun hne => absurd hempty hne
  · next hne =>
      have hcarries :=
        (refreshMailReceiptBond_carries env (receivedReceipt remoteLabel received)).1
      have hiff : (received.messageId ≠ [] → received.verifiedAt ≠ 0 →
          (receivedReceipt remoteLabel received).key ∈ earned) ↔
            ((refreshMailReceiptBond env (receivedReceipt remoteLabel received)).verifiedAt ≠ 0 →
              (refreshMailReceiptBond env (receivedReceipt remoteLabel received)).key ∈ earned) := by
        rw [hcarries.key, hcarries.verifiedAt]
        exact ⟨fun h => h hne, fun h _ => h⟩
      rw [hiff]
      dsimp only
      split
      · exact slashMailReceipt_earnedOnly_iff _ _ _ hn
      · have heffect : IssueEffect lib _ _ _ := issueEffect env
          (refreshMailReceiptBond env (receivedReceipt remoteLabel received))
          (n.upsert (refreshMailReceiptBond env (receivedReceipt remoteLabel received)))
        exact ⟨fun h => heffect.of_earnedOnly h, fun h => heffect.earnedOnly (hn.upsert h) h⟩

/-- The pending challenges are among those that were issued. -/
def Known (issued : List PendingMailProofChallenge) (n : MailNode) : Prop :=
  ∀ id pending, n.pending.lookup id = some pending → pending.challengeId = id ∧ pending ∈ issued

/-- A challenge that is answered earns the challenged pair. -/
theorem ProofMatch.earned {issued : List PendingMailProofChallenge} {n : MailNode} {env : MailEnv}
    {answer : DhtMailProofPayload} {pending : PendingMailProofChallenge}
    {receipt : MailStorageReceipt} (h : ProofMatch lib env answer n pending receipt)
    (hknown : Known issued n) : pending.key ∈ earnedBy lib env n issued (.proof answer) := by
  obtain ⟨hid, hissued⟩ := hknown _ pending h.lookup
  obtain ⟨record, hrecord, hhash⟩ := h.hash
  have hload := mem_loadDistributedMailRecords (List.mem_of_find?_eq_some hrecord)
  rw [ownCopy] at hrecord
  have hfound := List.find?_some hrecord
  refine List.mem_map_of_mem (List.mem_filter.mpr ⟨hissued, ?_⟩)
  rw [answers, Bool.and_eq_true, List.any_eq_true]
  refine ⟨decide_eq_true hid, record, hload, ?_⟩
  rw [Bool.and_eq_true]
  exact ⟨hfound, decide_eq_true hhash⟩

theorem dhtMailProof_earnedOnly_iff {earned : List (Bytes × Bytes)} {n : MailNode}
    (env : MailEnv) (answer : DhtMailProofPayload) (hn : EarnedOnly earned n)
    (hearned : ∀ pending receipt, ProofMatch lib env answer n pending receipt →
      pending.key ∈ earned) :
    EarnedOnly earned (dhtMailProof lib env answer n).node ↔
      Earning lib env n earned (.proof answer) := by
  have hanswered : EarnedOnly earned (n.answered answer) := hn
  have hone : ∀ {pending receipt}, ProofMatch lib env answer n pending receipt →
      (Earning lib env n earned (.proof answer) ↔
        (provedAt lib answer (relabelled env answer receipt) ≠ 0 →
          (relabelled env answer receipt).key ∈ earned)) := by
    intro pending receipt hmatch
    constructor
    · intro h hverified
      rcases h _ _ hmatch hverified with hkey | hkey
      · exact hkey ▸ hearned pending receipt hmatch
      · exact hkey
    · intro h pending' receipt' hmatch' hverified
      rw [hmatch.unique hmatch'] at hverified ⊢
      exact .inr (h hverified)
  have heffect : ProofEffect lib env answer n _ := proofEffect env answer n
  revert heffect
  generalize dhtMailProof lib env answer n = step
  intro heffect
  cases heffect with
  | unknown hlookup =>
      refine iff_of_true hn fun pending receipt hmatch => ?_
      cases hlookup.symm.trans hmatch.lookup
  | unmatched hno =>
      exact iff_of_true hanswered fun pending receipt hmatch => absurd hmatch (hno pending receipt)
  | failed receipt reason evidence hreceipt hno =>
      refine iff_of_true ?_ fun pending receipt hmatch => absurd hmatch (hno pending receipt)
      exact (slashMailReceipt_earnedOnly_iff _ _ _ hanswered).mpr (hn.of_mem hreceipt)
  | untrusted pending receipt reason evidence hmatch huntrusted =>
      rw [hone hmatch, provedAt, if_neg (by rw [huntrusted]; decide)]
      exact slashMailReceipt_earnedOnly_iff _ _ _ hanswered
  | proved pending receipt hmatch htrusted =>
      rw [hone hmatch, provedAt, if_pos htrusted]
      exact ⟨fun h => h.of_upsert, fun h => hanswered.upsert h⟩

theorem slashTimedOut_earnedOnly {earned : List (Bytes × Bytes)} {n : MailNode} (env : MailEnv)
    (pending : PendingMailProofChallenge) (hn : EarnedOnly earned n) :
    EarnedOnly earned (slashTimedOut lib env pending n).node := by
  rw [slashTimedOut.eq_def]
  split
  · exact hn
  · next receipt hreceipt =>
      exact (slashMailReceipt_earnedOnly_iff _ _ _ hn).mpr
        (hn.of_mem (List.mem_of_find?_eq_some hreceipt))

theorem challengeAgain_earnedOnly {earned : List (Bytes × Bytes)} {n : MailNode} (env : MailEnv)
    {receipt : MailStorageReceipt} (hreceipt : receipt.verifiedAt ≠ 0 → receipt.key ∈ earned)
    (hn : EarnedOnly earned n) :
    EarnedOnly earned (challengeAgain lib env receipt n).node := by
  rw [challengeAgain]
  split
  · exact hn
  · split
    · exact hn
    · exact (issueEffect env receipt n).earnedOnly hn hreceipt

theorem maintain_earnedOnly {earned : List (Bytes × Bytes)} {n : MailNode} (env : MailEnv)
    (hn : EarnedOnly earned n) :
    EarnedOnly earned (maintainMailStorageProofs lib env n).node := by
  rw [maintainMailStorageProofs]
  split
  · exact hn
  · dsimp only
    have hfirst : EarnedOnly earned
        (forEach (slashTimedOut lib env) (expiredChallenges env n) (withoutExpired env n)).node :=
      forEach_induct (EarnedOnly earned) (fun pending _ n' => slashTimedOut_earnedOnly env pending)
        hn
    refine forEach_induct (EarnedOnly earned) (fun receipt hreceipt n' hn' => ?_) hfirst
    exact challengeAgain_earnedOnly env (hfirst.of_mem hreceipt) hn'

theorem earnedOnly_of_subset {earned : List (Bytes × Bytes)} {n n' : MailNode}
    (hn : EarnedOnly earned n)
    (hsub : ∀ receipt ∈ n'.mailStorageReceipts none, receipt ∈ n.mailStorageReceipts none) :
    EarnedOnly earned n' := fun receipt hreceipt => hn receipt (hsub receipt hreceipt)

theorem delete_subset (messageId : Bytes) (n : MailNode) :
    ∀ receipt ∈ (deleteDistributedMail messageId n).mailStorageReceipts none,
      receipt ∈ n.mailStorageReceipts none := by
  intro receipt h
  rw [deleteDistributedMail] at h
  split at h
  · exact (mem_load_filter.mp h).1
  · exact h

/-- An event leaves only earned receipts verified exactly if it is an earning one. -/
theorem step_earnedOnly_iff {earned : List (Bytes × Bytes)} {n : MailNode} (env : MailEnv)
    (event : MailEvent) (hn : EarnedOnly earned n)
    (hearned : ∀ answer, event = .proof answer → ∀ pending receipt,
      ProofMatch lib env answer n pending receipt → pending.key ∈ earned) :
    EarnedOnly earned (event.run lib env n).node ↔ Earning lib env n earned event := by
  cases event with
  | store remoteLabel record =>
      exact iff_of_true (dhtMailStore_earnedOnly env remoteLabel record hn) trivial
  | receipt remoteLabel received => exact dhtMailReceipt_earnedOnly_iff env remoteLabel received hn
  | proof answer => exact dhtMailProof_earnedOnly_iff env answer hn (hearned answer rfl)
  | lookup => exact iff_of_true hn trivial
  | maintain => exact iff_of_true (maintain_earnedOnly env hn) trivial
  | keep record => exact iff_of_true (fun receipt hreceipt => hn receipt hreceipt) trivial
  | delete messageId => exact iff_of_true (earnedOnly_of_subset hn (delete_subset messageId n)) trivial
  | prune => exact iff_of_true (earnedOnly_of_subset hn fun _ h => (mem_load_filter.mp h).1) trivial
  | restart => exact iff_of_true (fun receipt hreceipt => hn receipt hreceipt) trivial

/-! ## The run -/

theorem Known.after {l : Ledger} {n : MailNode} (h : Known l.issued n) (env : MailEnv)
    (event : MailEvent) : Known (l.after lib env n event).issued (event.run lib env n).node := by
  intro id pending hlookup
  rcases step_pendingFrom env n event id pending hlookup with hbefore | ⟨hid, hlog⟩
  · obtain ⟨hid, hissued⟩ := h id pending hbefore
    exact ⟨hid, List.mem_append_left _ hissued⟩
  · exact ⟨hid, List.mem_append_right _ (List.mem_filterMap.mpr ⟨_, hlog, rfl⟩)⟩

theorem earnedRun_iff_from : ∀ (events : List (MailEnv × MailEvent)) (n : MailNode) (l : Ledger),
    EarnedOnly l.earned n → Known l.issued n →
      (EarnedRun lib n l events ↔ EarningRun lib n l events)
  | [], n, l, hn, _ => iff_of_true hn trivial
  | (env, event) :: events, n, l, hn, hknown => by
      have hn' : EarnedOnly (l.after lib env n event).earned n :=
        hn.mono (List.subset_append_left _ _)
      have hstep : EarnedOnly (l.after lib env n event).earned (event.run lib env n).node ↔
          Earning lib env n (l.after lib env n event).earned event := by
        refine step_earnedOnly_iff env event hn' fun answer hevent pending receipt hmatch => ?_
        rw [hevent]
        exact List.mem_append_right _ (hmatch.earned hknown)
      have hknown' : Known (l.after lib env n event).issued _ := hknown.after env event
      rw [EarnedRun, EarningRun, ← hstep]
      constructor
      · rintro ⟨-, hrun⟩
        have hafter : EarnedOnly (l.after lib env n event).earned (event.run lib env n).node := by
          cases events with
          | nil => exact hrun
          | cons next rest => exact hrun.1
        exact ⟨hafter, (earnedRun_iff_from events _ _ hafter hknown').mp hrun⟩
      · rintro ⟨hafter, hrun⟩
        exact ⟨hn, (earnedRun_iff_from events _ _ hafter hknown').mpr hrun⟩

/-- A node without receipts and challenges. -/
def freshMailNode (recordLines : List Bytes) : MailNode := ⟨recordLines, [], ∅⟩

/-- Over any run from a node without receipts, the verified receipts are earned
exactly if every event is an earning one. -/
theorem verified_receipts_earned_iff (lib : MailLib) (recordLines : List Bytes)
    (events : List (MailEnv × MailEvent)) :
    EarnedRun lib (freshMailNode recordLines) ⟨[], []⟩ events ↔
      EarningRun lib (freshMailNode recordLines) ⟨[], []⟩ events :=
  earnedRun_iff_from events _ _ nofun fun id pending hlookup => by
    have hempty : (∅ : FinMap Bytes PendingMailProofChallenge).lookup id = some pending := hlookup
    rw [Finmap.lookup_empty] at hempty
    cases hempty

/-- A peer sends its receipt with a time of verification. -/
theorem not_verified_receipts_earned : ¬ ∀ (lib : MailLib) (recordLines : List Bytes)
    (events : List (MailEnv × MailEvent)),
    EarnedRun lib (freshMailNode recordLines) ⟨[], []⟩ events := by
  intro hall
  obtain ⟨hfresh, hafter⟩ := hall sampleMailLib []
    [(sampleMailEnv, .receipt [9] { sampleReceipt with verifiedAt := 5 })]
  have hearned := (dhtMailReceipt_earnedOnly_iff sampleMailEnv [9]
    { sampleReceipt with verifiedAt := 5 } hfresh).mp hafter
  exact List.not_mem_nil (hearned (List.cons_ne_nil _ _) (by decide))

end Mail

end Cryptex
