import Cryptex.Network.MailReceipts

/-!
# Slashed receipts

How long a slashed receipt stays slashed and uncounted while its message is
stored.
-/

namespace Cryptex

open Encoding Chat

namespace Mail

variable {lib : MailLib}

/-! ## Slashed and uncounted -/

/-- There is a receipt for the pair, and every receipt for it is slashed. -/
structure Slashed (k : Bytes × Bytes) (n : MailNode) : Prop where
  present : ∃ receipt ∈ n.mailStorageReceipts none, receipt.key = k
  slashed : ∀ receipt ∈ n.mailStorageReceipts none, receipt.key = k → receipt.slashed = true

/-- `verified_mail_storage_receipt_count` does not count the pair. -/
def Uncounted (k : Bytes × Bytes) (n : MailNode) : Prop :=
  ∀ receipt ∈ n.mailStorageReceipts none, receipt.key = k → receipt.verified = false

/-- No challenge for the pair is issued. -/
def Unchallenged (k : Bytes × Bytes) (log : List MailAction) : Prop :=
  ∀ pending, .challenged pending ∈ log → pending.key ≠ k

section

variable (lib : MailLib)

/-- As long as the message of the pair is stored, the pair stays slashed and
uncounted and is not challenged. -/
def SlashKept (k : Bytes × Bytes) : MailNode → List (MailEnv × MailEvent) → Prop
  | n, [] => Slashed k n ∧ Uncounted k n
  | n, (env, event) :: events =>
      (Slashed k n ∧ Uncounted k n) ∧
        (Stored lib.toCrypto (event.run lib env n).node.recordLines env.now k.1 →
          Unchallenged k (event.run lib env n).log ∧
            SlashKept k (event.run lib env n).node events)

/-- The event does not write the receipt of the pair anew: no own receipt for
it, no valid one from a peer nor one with a time of verification, and no proof
that makes its receipt, or one that gets its label, verified. -/
def SlashSafe (k : Bytes × Bytes) (env : MailEnv) (n : MailNode) : MailEvent → Prop
  | .store remoteLabel record =>
      record.messageId ≠ [] → record.recipientAddress ≠ [] →
        (record.messageId, env.advertised.getD remoteLabel) ≠ k
  | .receipt remoteLabel received =>
      received.messageId ≠ [] → (receivedReceipt remoteLabel received).key = k →
        verifyMailReceiptSignature lib
            (refreshMailReceiptBond env (receivedReceipt remoteLabel received)) = false ∧
          received.verifiedAt = 0
  | .proof answer =>
      ∀ pending receipt, ProofMatch lib env answer n pending receipt →
        (relabelled env answer receipt).key = k →
        if trustedForProof lib (relabelled env answer receipt) then
          receipt.slashed = true ∧ answer.respondedAt = 0
        else receipt.verifiedAt = 0
  | _ => True

def SlashSafeRun (k : Bytes × Bytes) : MailNode → List (MailEnv × MailEvent) → Prop
  | _, [] => True
  | n, (env, event) :: events =>
      Stored lib.toCrypto (event.run lib env n).node.recordLines env.now k.1 →
        SlashSafe lib k env n event ∧ SlashSafeRun k (event.run lib env n).node events

end

/-! ## Writing receipts -/

/-- The receipts for the pair are slashed and have no time of verification. -/
def Settled (k : Bytes × Bytes) (n : MailNode) : Prop :=
  Slashed k n ∧ Uncounted k n

theorem Settled.of_mem {k : Bytes × Bytes} {n : MailNode} (h : Settled k n)
    {receipt : MailStorageReceipt} (hreceipt : receipt ∈ n.mailStorageReceipts none)
    (hkey : receipt.key = k) : receipt.slashed = true ∧ receipt.verifiedAt = 0 := by
  refine ⟨h.1.slashed receipt hreceipt hkey, ?_⟩
  have hverified := h.2 receipt hreceipt hkey
  rw [← verified_of_mem_load hreceipt] at hverified
  exact not_not.mp (of_decide_eq_false hverified)

/-- Writing a receipt of another pair, or one that is slashed and was never
verified. -/
theorem Settled.upsert_iff {k : Bytes × Bytes} {n : MailNode} (h : Settled k n)
    (receipt : MailStorageReceipt) :
    Settled k (n.upsert receipt) ↔
      (receipt.key = k → receipt.slashed = true ∧ receipt.verifiedAt = 0) := by
  constructor
  · intro hafter hkey
    have hself : receipt.reloaded ∈ (n.upsert receipt).mailStorageReceipts none :=
      mem_load_upsert_self receipt n.receiptLines
    have hboth := hafter.of_mem hself hkey
    exact hboth
  · intro hreceipt
    refine ⟨⟨exists_key_upsert receipt h.1.present, fun other hother hkey => ?_⟩,
      fun other hother hkey => ?_⟩
    · rcases mem_load_upsert hother with rfl | hold
      · exact (hreceipt hkey).1
      · exact h.1.slashed other hold hkey
    · rcases mem_load_upsert hother with rfl | hold
      · exact decide_eq_false (not_not.mpr (hreceipt hkey).2)
      · exact h.2 other hold hkey

theorem Settled.of_receipts {k : Bytes × Bytes} {n n' : MailNode} (h : Settled k n)
    (hpresent : ∃ receipt ∈ n'.mailStorageReceipts none, receipt.key = k)
    (hsub : ∀ receipt ∈ n'.mailStorageReceipts none, receipt ∈ n.mailStorageReceipts none) :
    Settled k n' :=
  ⟨⟨hpresent, fun receipt hreceipt => h.1.slashed receipt (hsub receipt hreceipt)⟩,
    fun receipt hreceipt => h.2 receipt (hsub receipt hreceipt)⟩

theorem unchallenged_nil (k : Bytes × Bytes) : Unchallenged k [] := nofun

/-- Slashing a receipt of the node keeps the pair settled. -/
theorem Settled.slash_iff {k : Bytes × Bytes} {n : MailNode} (h : Settled k n) (env : MailEnv)
    (reason evidence : Bytes) (receipt : MailStorageReceipt) :
    Settled k (slashMailReceipt lib env reason evidence receipt n).node ↔
      (receipt.key = k → receipt.verifiedAt = 0) :=
  (h.upsert_iff _).trans ⟨fun hreceipt hkey => (hreceipt hkey).2,
    fun hreceipt hkey => ⟨rfl, hreceipt hkey⟩⟩

theorem unchallenged_slash (k : Bytes × Bytes) (env : MailEnv) (reason evidence : Bytes)
    (receipt : MailStorageReceipt) (n : MailNode) :
    Unchallenged k (slashMailReceipt lib env reason evidence receipt n).log := by
  intro pending hmem
  cases List.mem_singleton.mp hmem

/-- A challenge of another pair. -/
theorem IssueEffect.settled {receipt : MailStorageReceipt} {n : MailNode} {step : MailStep}
    (heffect : IssueEffect lib receipt n step) {k : Bytes × Bytes} (h : Settled k n)
    (hkey : receipt.key ≠ k) : Settled k step.node ∧ Unchallenged k step.log := by
  have hwrite : ∀ {updated : MailStorageReceipt} {n' : MailNode}, Carries receipt updated →
      Settled k n' → Settled k (n'.upsert updated) := fun hcarries h' =>
    (h'.upsert_iff _).mpr fun hsame => absurd (hcarries.key.symm.trans hsame) hkey
  cases heffect with
  | nothing => exact ⟨h, unchallenged_nil k⟩
  | slashed updated hcarries hopen hinvalid hslashed =>
      exact ⟨hwrite hcarries h, fun pending hmem => by cases List.mem_singleton.mp hmem⟩
  | refreshed updated hcarries hopen hslashed => exact ⟨hwrite hcarries h, unchallenged_nil k⟩
  | challenged updated pending hcarries hopen hslashed hpending =>
      refine ⟨hwrite hcarries (h.of_receipts h.1.present fun _ hr => hr), fun other hmem => ?_⟩
      rw [MailAction.challenged.inj (List.mem_singleton.mp hmem), hpending]
      exact hkey

/-! ## One event -/

/-- Each step of a series keeps the pair settled and does not challenge it. -/
theorem forEach_settled {α : Type} {f : α → MailNode → MailStep} {k : Bytes × Bytes} :
    ∀ {xs : List α} {n : MailNode}, (∀ x ∈ xs, ∀ n, Settled k n →
        Settled k (f x n).node ∧ Unchallenged k (f x n).log) → Settled k n →
      Settled k (forEach f xs n).node ∧ Unchallenged k (forEach f xs n).log
  | [], n, _, hn => ⟨hn, unchallenged_nil k⟩
  | x :: xs, n, hf, hn => by
      obtain ⟨hfirst, hlog⟩ := hf x List.mem_cons_self n hn
      have hrest : Settled k (forEach f xs (f x n).node).node ∧
          Unchallenged k (forEach f xs (f x n).node).log :=
        forEach_settled (fun y hy => hf y (List.mem_cons_of_mem _ hy)) hfirst
      refine ⟨hrest.1, fun pending hmem => ?_⟩
      rcases List.mem_append.mp hmem with hnow | hlater
      · exact hlog pending hnow
      · exact hrest.2 pending hlater

theorem slashTimedOut_settled {k : Bytes × Bytes} {n : MailNode} (env : MailEnv)
    (pending : PendingMailProofChallenge) (h : Settled k n) :
    Settled k (slashTimedOut lib env pending n).node ∧
      Unchallenged k (slashTimedOut lib env pending n).log := by
  rw [slashTimedOut.eq_def]
  split
  · exact ⟨h, unchallenged_nil k⟩
  · next receipt hreceipt =>
      have hmem := (mem_loadMailStorageReceipts.mp (List.mem_of_find?_eq_some hreceipt)).1
      exact ⟨(h.slash_iff env _ _ receipt).mpr fun hkey => (h.of_mem hmem hkey).2,
        unchallenged_slash k env _ _ receipt n⟩

theorem challengeAgain_settled {k : Bytes × Bytes} {n : MailNode} (env : MailEnv)
    {receipt : MailStorageReceipt} (hreceipt : receipt.key = k → receipt.slashed = true)
    (h : Settled k n) :
    Settled k (challengeAgain lib env receipt n).node ∧
      Unchallenged k (challengeAgain lib env receipt n).log := by
  rw [challengeAgain]
  split
  · exact ⟨h, unchallenged_nil k⟩
  · next hopen =>
      split
      · exact ⟨h, unchallenged_nil k⟩
      · exact (issueEffect env receipt n).settled h fun hkey => hopen (hreceipt hkey)

/-- Maintenance leaves a slashed receipt alone. -/
theorem maintain_settled {k : Bytes × Bytes} {n : MailNode} (env : MailEnv) (h : Settled k n) :
    Settled k (maintainMailStorageProofs lib env n).node ∧
      Unchallenged k (maintainMailStorageProofs lib env n).log := by
  rw [maintainMailStorageProofs]
  split
  · exact ⟨h, unchallenged_nil k⟩
  · dsimp only
    have hkept : Settled k (withoutExpired env n) := h.of_receipts h.1.present fun _ hr => hr
    have hfirst : Settled k (forEach (slashTimedOut lib env) (expiredChallenges env n)
          (withoutExpired env n)).node ∧
        Unchallenged k (forEach (slashTimedOut lib env) (expiredChallenges env n)
          (withoutExpired env n)).log :=
      forEach_settled (fun pending _ n' => slashTimedOut_settled env pending) hkept
    revert hfirst
    generalize forEach (slashTimedOut lib env) (expiredChallenges env n) (withoutExpired env n)
      = first
    intro hfirst
    have hrest : Settled k (forEach (challengeAgain lib env)
          (first.node.mailStorageReceipts none) first.node).node ∧
        Unchallenged k (forEach (challengeAgain lib env)
          (first.node.mailStorageReceipts none) first.node).log :=
      forEach_settled (fun receipt hreceipt n' =>
        challengeAgain_settled env (hfirst.1.1.slashed receipt hreceipt)) hfirst.1
    refine ⟨hrest.1, fun pending hmem => ?_⟩
    rcases List.mem_append.mp hmem with hnow | hlater
    · exact hfirst.2 pending hnow
    · exact hrest.2 pending hlater

theorem ownReceipt_fields (env : MailEnv) (remoteLabel : Bytes) (record : DistributedMailRecord) :
    (ownReceipt lib env remoteLabel record).key
        = (record.messageId, env.advertised.getD remoteLabel) ∧
      (ownReceipt lib env remoteLabel record).slashed = false ∧
      (ownReceipt lib env remoteLabel record).verifiedAt = 0 := by
  have hsign : ∀ (wallet : Option Wallet) (receipt : MailStorageReceipt),
      (signMailReceipt lib wallet receipt).key = receipt.key ∧
        (signMailReceipt lib wallet receipt).slashed = receipt.slashed ∧
        (signMailReceipt lib wallet receipt).verifiedAt = receipt.verifiedAt := by
    intro wallet receipt
    rw [signMailReceipt.eq_def]
    split
    · exact ⟨rfl, rfl, rfl⟩
    · split
      · exact ⟨rfl, rfl, rfl⟩
      · exact ⟨rfl, rfl, rfl⟩
  rw [ownReceipt, (refreshMailReceiptBond_carries env _).1.key,
    (refreshMailReceiptBond_carries env _).2, (refreshMailReceiptBond_carries env _).1.verifiedAt]
  obtain ⟨hkey, hslashed, hverified⟩ := hsign env.wallet
    { messageId := record.messageId
      recipientAddress := record.recipientAddress
      replicaLabel := env.advertised.getD remoteLabel
      storageHashHex := mailStorageHashHex lib record
      storedAt := record.storedAt
      expiresAt := record.expiresAt
      receiptAt := env.now }
  exact ⟨hkey, hslashed, hverified⟩

theorem dhtMailStore_settled_iff {k : Bytes × Bytes} {n : MailNode} (env : MailEnv)
    (remoteLabel : Bytes) (record : DistributedMailRecord) (h : Settled k n) :
    Unchallenged k (dhtMailStore lib env remoteLabel record n).log ∧
        Settled k (dhtMailStore lib env remoteLabel record n).node ↔
      SlashSafe lib k env n (.store remoteLabel record) := by
  rw [dhtMailStore]
  split
  · next hempty =>
      refine iff_of_true ⟨unchallenged_nil k, h⟩ fun hmessage hrecipient => ?_
      exact absurd hempty (not_or.mpr ⟨hmessage, hrecipient⟩)
  · next hnonempty =>
      obtain ⟨hmessage, hrecipient⟩ := not_or.mp hnonempty
      dsimp only
      have hrecord : ∀ lines, Settled k { n with recordLines := lines } := fun lines =>
        h.of_receipts h.1.present fun _ hr => hr
      have hlabel : ∀ record' : DistributedMailRecord, record'.messageId = record.messageId →
          (ownReceipt lib env remoteLabel record').key
            = (record.messageId, env.advertised.getD remoteLabel) := by
        intro record' hsame
        rw [(ownReceipt_fields env remoteLabel record').1, hsame]
      constructor
      · rintro ⟨-, hafter⟩ _ _ hkey
        have hwritten := ((hrecord _).upsert_iff _).mp hafter
          ((hlabel _ (by split <;> rfl)).trans hkey)
        rw [(ownReceipt_fields env remoteLabel _).2.1] at hwritten
        cases hwritten.1
      · intro hsafe
        refine ⟨unchallenged_nil k, ((hrecord _).upsert_iff _).mpr fun hkey => ?_⟩
        exact absurd ((hlabel _ (by split <;> rfl)).symm.trans hkey) (hsafe hmessage hrecipient)

/-- After a valid receipt of a peer its pair is not slashed. -/
theorem IssueEffect.not_settled {receipt : MailStorageReceipt} {n : MailNode} {step : MailStep}
    (heffect : IssueEffect lib receipt (n.upsert receipt) step)
    (hvalid : verifyMailReceiptSignature lib receipt ≠ false) (hopen : receipt.slashed = false) :
    ¬ Settled receipt.key step.node := by
  have hwritten : ∀ {updated : MailStorageReceipt} {n' : MailNode}, updated.key = receipt.key →
      updated.slashed = false → ¬ Settled receipt.key (n'.upsert updated) := by
    intro updated n' hkey hslashed hsettled
    have hself : updated.reloaded ∈ (n'.upsert updated).mailStorageReceipts none :=
      mem_load_upsert_self updated n'.receiptLines
    have htrue : updated.slashed = true := (hsettled.of_mem hself hkey).1
    rw [hslashed] at htrue
    cases htrue
  cases heffect with
  | nothing => exact hwritten rfl hopen
  | slashed updated hcarries _ hinvalid _ => exact absurd hinvalid hvalid
  | refreshed updated hcarries _ hslashed => exact hwritten hcarries.key hslashed
  | challenged updated pending hcarries _ hslashed _ => exact hwritten hcarries.key hslashed

theorem dhtMailReceipt_settled_iff {k : Bytes × Bytes} {n : MailNode} (env : MailEnv)
    (remoteLabel : Bytes) (received : MailStorageReceipt) (h : Settled k n) :
    Unchallenged k (dhtMailReceipt lib env remoteLabel received n).log ∧
        Settled k (dhtMailReceipt lib env remoteLabel received n).node ↔
      SlashSafe lib k env n (.receipt remoteLabel received) := by
  rw [dhtMailReceipt]
  split
  · next hempty => exact iff_of_true ⟨unchallenged_nil k, h⟩ fun hne => absurd hempty hne
  · next hne =>
      obtain ⟨hcarries, hslashed⟩ :=
        refreshMailReceiptBond_carries env (receivedReceipt remoteLabel received)
      rw [SlashSafe, ← hcarries.key]
      have hverified : (refreshMailReceiptBond env
          (receivedReceipt remoteLabel received)).verifiedAt = received.verifiedAt :=
        hcarries.verifiedAt
      have hopen : (refreshMailReceiptBond env
          (receivedReceipt remoteLabel received)).slashed = false := hslashed
      revert hverified hopen
      generalize refreshMailReceiptBond env (receivedReceipt remoteLabel received) = receipt
      intro hverified hopen
      dsimp only
      split
      · next hinvalid =>
          rw [h.slash_iff env, hverified]
          exact ⟨fun hstep _ hkey => ⟨hinvalid, hstep.2 hkey⟩,
            fun hsafe => ⟨unchallenged_slash k env _ _ receipt n, fun hkey => (hsafe hne hkey).2⟩⟩
      · next hvalid =>
          have heffect : IssueEffect lib receipt (n.upsert receipt) _ :=
            issueEffect env receipt (n.upsert receipt)
          constructor
          · rintro ⟨-, hafter⟩ _ hkey
            rw [← hkey] at hafter
            exact absurd hafter (heffect.not_settled hvalid hopen)
          · intro hsafe
            have hkey : receipt.key ≠ k := fun hkey => hvalid (hsafe hne hkey).1
            have hupsert := (h.upsert_iff receipt).mpr fun hsame => absurd hsame hkey
            exact (heffect.settled hupsert hkey).symm

theorem dhtMailProof_settled_iff {k : Bytes × Bytes} {n : MailNode} (env : MailEnv)
    (answer : DhtMailProofPayload) (h : Settled k n) :
    Unchallenged k (dhtMailProof lib env answer n).log ∧
        Settled k (dhtMailProof lib env answer n).node ↔
      SlashSafe lib k env n (.proof answer) := by
  have hanswered : Settled k (n.answered answer) := h.of_receipts h.1.present fun _ hr => hr
  have heffect : ProofEffect lib env answer n _ := proofEffect env answer n
  revert heffect
  generalize dhtMailProof lib env answer n = step
  intro heffect
  cases heffect with
  | unknown hlookup =>
      refine iff_of_true ⟨unchallenged_nil k, h⟩ fun pending receipt hmatch => ?_
      cases hlookup.symm.trans hmatch.lookup
  | unmatched hno =>
      exact iff_of_true ⟨unchallenged_nil k, hanswered⟩ fun pending receipt hmatch =>
        absurd hmatch (hno pending receipt)
  | failed receipt reason evidence hreceipt hno =>
      refine iff_of_true ⟨unchallenged_slash k env _ _ _ _, ?_⟩ fun pending receipt hmatch =>
        absurd hmatch (hno pending receipt)
      exact (hanswered.slash_iff env _ _ receipt).mpr fun hkey => (h.of_mem hreceipt hkey).2
  | untrusted pending receipt reason evidence hmatch huntrusted =>
      have hfields := relabelled_fields env answer receipt
      rw [hanswered.slash_iff env, hfields.2]
      constructor
      · rintro ⟨-, hstep⟩ pending' receipt' hmatch' hkey
        rw [hmatch.unique hmatch'] at hkey ⊢
        rw [if_neg (by rw [huntrusted]; decide)]
        exact hstep hkey
      · intro hsafe
        refine ⟨unchallenged_slash k env _ _ _ _, fun hkey => ?_⟩
        have hzero := hsafe pending receipt hmatch hkey
        rw [if_neg (by rw [huntrusted]; decide)] at hzero
        exact hzero
  | proved pending receipt hmatch htrusted =>
      have hfields := relabelled_fields env answer receipt
      constructor
      · rintro ⟨-, hafter⟩ pending' receipt' hmatch' hkey
        rw [hmatch.unique hmatch'] at hkey ⊢
        rw [if_pos htrusted, ← hfields.1]
        exact (hanswered.upsert_iff _).mp hafter hkey
      · intro hsafe
        refine ⟨unchallenged_nil k, (hanswered.upsert_iff _).mpr fun hkey => ?_⟩
        have hzero := hsafe pending receipt hmatch hkey
        rw [if_pos htrusted, ← hfields.1] at hzero
        exact hzero

theorem delete_settled {k : Bytes × Bytes} {n : MailNode} {now : UInt64} (messageId : Bytes)
    (h : Settled k n)
    (hstored : Stored lib.toCrypto (deleteDistributedMail messageId n).recordLines now k.1) :
    Settled k (deleteDistributedMail messageId n) := by
  rw [deleteDistributedMail] at hstored ⊢
  split
  · next hdeleted =>
      rw [if_pos hdeleted] at hstored
      have hne := stored_ne_deleted hdeleted hstored
      refine h.of_receipts ?_ fun receipt hreceipt => (mem_load_filter.mp hreceipt).1
      obtain ⟨receipt, hreceipt, hkey⟩ := h.1.present
      refine ⟨receipt, mem_load_filter.mpr ⟨hreceipt, decide_eq_true ?_⟩, hkey⟩
      rw [← hkey] at hne
      exact hne
  · exact h

theorem prune_settled {k : Bytes × Bytes} {n : MailNode} (env : MailEnv) (h : Settled k n)
    (hstored : Stored lib.toCrypto (pruneDistributedMailStore lib env n).recordLines env.now k.1) :
    Settled k (pruneDistributedMailStore lib env n) := by
  refine h.of_receipts ?_ fun receipt hreceipt => (mem_load_filter.mp hreceipt).1
  obtain ⟨record, hrecord, hmessage⟩ := hstored
  obtain ⟨receipt, hreceipt, hkey⟩ := h.1.present
  refine ⟨receipt, mem_load_filter.mpr ⟨hreceipt, ?_⟩, hkey⟩
  rw [List.any_eq_true]
  refine ⟨record, mem_of_mem_load_save hrecord, decide_eq_true ?_⟩
  rw [hmessage, ← hkey]
  rfl

/-- An event after which the message is stored leaves a settled pair alone
exactly if it is a safe one. -/
theorem step_settled_iff {k : Bytes × Bytes} {n : MailNode} (env : MailEnv) (event : MailEvent)
    (h : Settled k n)
    (hstored : Stored lib.toCrypto (event.run lib env n).node.recordLines env.now k.1) :
    Unchallenged k (event.run lib env n).log ∧ Settled k (event.run lib env n).node ↔
      SlashSafe lib k env n event := by
  cases event with
  | store remoteLabel record => exact dhtMailStore_settled_iff env remoteLabel record h
  | receipt remoteLabel received => exact dhtMailReceipt_settled_iff env remoteLabel received h
  | proof answer => exact dhtMailProof_settled_iff env answer h
  | lookup => exact iff_of_true ⟨unchallenged_nil k, h⟩ trivial
  | maintain => exact iff_of_true (maintain_settled env h).symm trivial
  | keep record =>
      exact iff_of_true ⟨unchallenged_nil k, h.of_receipts h.1.present fun _ hr => hr⟩ trivial
  | delete messageId =>
      exact iff_of_true ⟨unchallenged_nil k, delete_settled messageId h hstored⟩ trivial
  | prune => exact iff_of_true ⟨unchallenged_nil k, prune_settled env h hstored⟩ trivial
  | restart =>
      exact iff_of_true ⟨unchallenged_nil k, h.of_receipts h.1.present fun _ hr => hr⟩ trivial

/-! ## Slashing in a run -/

/-- The receipts of the node have distinct pairs. -/
def UniqueNode (n : MailNode) : Prop := UniqueReceipts n.receiptLines

/-- A slashed receipt that is written is the only one for its pair. -/
theorem UniqueNode.slashed_upsert {n : MailNode} (h : UniqueNode n) {receipt : MailStorageReceipt}
    (hslashed : receipt.slashed = true) : Slashed receipt.key (n.upsert receipt) := by
  refine ⟨⟨receipt.reloaded, mem_load_upsert_self receipt n.receiptLines, rfl⟩,
    fun other hother hkey => ?_⟩
  rw [UniqueReceipts.eq_of_upsert h hother hkey]
  exact hslashed

theorem Slashed.upsert {k : Bytes × Bytes} {n : MailNode} (h : Slashed k n)
    {receipt : MailStorageReceipt} (hreceipt : receipt.key = k → receipt.slashed = true) :
    Slashed k (n.upsert receipt) := by
  refine ⟨exists_key_upsert receipt h.present, fun other hother hkey => ?_⟩
  rcases mem_load_upsert hother with rfl | hold
  · exact hreceipt hkey
  · exact h.slashed other hold hkey

/-- The step keeps the pairs distinct, and a pair that it slashes is slashed
after it. -/
structure Slashes (n : MailNode) (step : MailStep) : Prop where
  unique : UniqueNode n → UniqueNode step.node
  slashed : UniqueNode n → ∀ m r, .slashed m r ∈ step.log → Slashed (m, r) step.node

theorem Slashes.of_silent {n : MailNode} {step : MailStep}
    (hunique : UniqueNode n → UniqueNode step.node) (hlog : step.log = []) : Slashes n step :=
  ⟨hunique, fun _ m r hmem => by rw [hlog] at hmem; cases hmem⟩

theorem slashMailReceipt_slashes {n n' : MailNode} (hlines : n'.receiptLines = n.receiptLines)
    (env : MailEnv) (reason evidence : Bytes) (receipt : MailStorageReceipt) :
    Slashes n (slashMailReceipt lib env reason evidence receipt n') := by
  have hsame : UniqueNode n → UniqueNode n' := fun h => by rw [UniqueNode, hlines]; exact h
  refine ⟨fun h => (hsame h).upsert _, fun h m r hmem => ?_⟩
  obtain ⟨hm, hr⟩ := MailAction.slashed.inj (List.mem_singleton.mp hmem)
  rw [hm, hr]
  have hslashed : (slashedReceipt lib env reason evidence receipt).slashed = true := rfl
  exact (hsame h).slashed_upsert hslashed

theorem IssueEffect.slashes {receipt : MailStorageReceipt} {n : MailNode} {step : MailStep}
    (heffect : IssueEffect lib receipt n step) : Slashes n step := by
  cases heffect with
  | nothing => exact .of_silent id rfl
  | slashed updated hcarries hopen hinvalid hslashed =>
      refine ⟨fun h => h.upsert _, fun h m r hmem => ?_⟩
      obtain ⟨hm, hr⟩ := MailAction.slashed.inj (List.mem_singleton.mp hmem)
      rw [hm, hr]
      exact h.slashed_upsert hslashed
  | refreshed updated hcarries hopen hslashed => exact .of_silent (fun h => h.upsert _) rfl
  | challenged updated pending hcarries hopen hslashed hpending =>
      exact ⟨fun h => h.upsert _, fun _ m r hmem => by cases List.mem_singleton.mp hmem⟩

/-- A series of steps in which what one slashes is kept by the later ones. -/
theorem forEach_slashes {α : Type} {f : α → MailNode → MailStep} (hf : ∀ x n, Slashes n (f x n)) :
    ∀ {xs : List α} {n : MailNode}, xs.Pairwise (fun x y => ∀ m r n₀ n', .slashed m r ∈ (f x n₀).log →
        Slashed (m, r) n' → Slashed (m, r) (f y n').node) →
      Slashes n (forEach f xs n)
  | [], n, _ => .of_silent id rfl
  | x :: xs, n, hkeep => by
      obtain ⟨hfirst, hlater⟩ := List.pairwise_cons.mp hkeep
      have hrest : Slashes (f x n).node (forEach f xs (f x n).node) := forEach_slashes hf hlater
      refine ⟨fun h => hrest.unique ((hf x n).unique h), fun h m r hmem => ?_⟩
      rcases List.mem_append.mp hmem with hnow | hlog
      · have hkept : Slashed (m, r) (forEach f xs (f x n).node).node :=
          forEach_induct (Slashed (m, r)) (fun y hy n' => hfirst y hy m r n n' hnow)
            ((hf x n).slashed h m r hnow)
        exact hkept
      · exact hrest.slashed ((hf x n).unique h) m r hlog

theorem slashTimedOut_slashes (env : MailEnv) (pending : PendingMailProofChallenge)
    (n : MailNode) : Slashes n (slashTimedOut lib env pending n) := by
  rw [slashTimedOut.eq_def]
  split
  · exact .of_silent id rfl
  · exact slashMailReceipt_slashes rfl env _ _ _

theorem slashTimedOut_keeps {k : Bytes × Bytes} (env : MailEnv)
    (pending : PendingMailProofChallenge) {n : MailNode} (h : Slashed k n) :
    Slashed k (slashTimedOut lib env pending n).node := by
  rw [slashTimedOut.eq_def]
  split
  · exact h
  · exact h.upsert fun _ => rfl

theorem challengeAgain_slashes (env : MailEnv) (receipt : MailStorageReceipt) (n : MailNode) :
    Slashes n (challengeAgain lib env receipt n) := by
  rw [challengeAgain]
  split
  · exact .of_silent id rfl
  · split
    · exact .of_silent id rfl
    · exact (issueEffect env receipt n).slashes

/-- Whether a receipt that is challenged again is the first or a later one of
the loop, it is not for a slashed pair. -/
theorem challengeAgain_keeps {k : Bytes × Bytes} (env : MailEnv) {receipt : MailStorageReceipt}
    (hreceipt : receipt.key = k → receipt.slashed = true) {n : MailNode} (h : Slashed k n) :
    Slashed k (challengeAgain lib env receipt n).node := by
  rw [challengeAgain]
  split
  · exact h
  · next hopen =>
      split
      · exact h
      · have heffect : IssueEffect lib receipt n _ := issueEffect env receipt n
        have hwrite : ∀ {updated : MailStorageReceipt} {n' : MailNode}, Carries receipt updated →
            Slashed k n' → Slashed k (n'.upsert updated) := fun hcarries h' =>
          h'.upsert fun hkey => absurd (hreceipt (hcarries.key.symm.trans hkey)) hopen
        revert heffect
        generalize maybeIssueMailStorageChallenge lib env receipt n = step
        intro heffect
        cases heffect with
        | nothing => exact h
        | slashed updated hcarries _ hinvalid hslashed => exact hwrite hcarries h
        | refreshed updated hcarries _ hslashed => exact hwrite hcarries h
        | challenged updated pending hcarries _ hslashed hpending =>
            exact hwrite hcarries ⟨h.present, h.slashed⟩

theorem mem_log_challengeAgain {env : MailEnv} {receipt : MailStorageReceipt} {n : MailNode}
    {m r : Bytes} (h : .slashed m r ∈ (challengeAgain lib env receipt n).log) :
    (m, r) = receipt.key := by
  rw [challengeAgain] at h
  split at h
  · cases h
  · split at h
    · cases h
    · have heffect : IssueEffect lib receipt n _ := issueEffect env receipt n
      revert heffect h
      generalize maybeIssueMailStorageChallenge lib env receipt n = step
      intro h heffect
      cases heffect with
      | nothing => cases h
      | slashed updated hcarries _ hinvalid hslashed =>
          obtain ⟨hm, hr⟩ := MailAction.slashed.inj (List.mem_singleton.mp h)
          rw [hm, hr]
          exact hcarries.key
      | refreshed updated hcarries _ hslashed => cases h
      | challenged updated pending hcarries _ hslashed hpending =>
          cases List.mem_singleton.mp h

theorem maintain_slashes (env : MailEnv) (n : MailNode) :
    Slashes n (maintainMailStorageProofs lib env n) := by
  rw [maintainMailStorageProofs]
  split
  · exact .of_silent id rfl
  · dsimp only
    have hfirst : Slashes (withoutExpired env n)
        (forEach (slashTimedOut lib env) (expiredChallenges env n) (withoutExpired env n)) :=
      forEach_slashes (slashTimedOut_slashes env) (List.pairwise_of_forall
        fun x y m r n₀ n' _ hslashed => slashTimedOut_keeps env y hslashed)
    revert hfirst
    generalize forEach (slashTimedOut lib env) (expiredChallenges env n) (withoutExpired env n)
      = first
    intro hfirst
    have hrest : UniqueNode first.node → Slashes first.node (forEach (challengeAgain lib env)
        (first.node.mailStorageReceipts none) first.node) := by
      intro hunique
      refine forEach_slashes (challengeAgain_slashes env) ?_
      -- the receipts of the loop are for distinct pairs
      refine (List.pairwise_map.mp hunique).imp fun hne m r n₀ n' hlog hslashed => ?_
      refine challengeAgain_keeps env (fun hkey => ?_) hslashed
      exact absurd ((mem_log_challengeAgain hlog).symm.trans hkey.symm) hne
    refine ⟨fun h => (hrest (hfirst.unique h)).unique (hfirst.unique h), fun h m r hmem => ?_⟩
    rcases List.mem_append.mp hmem with hnow | hlater
    · have hnow' := hfirst.slashed h m r hnow
      exact forEach_induct (Slashed (m, r)) (fun receipt hreceipt n' =>
        challengeAgain_keeps env (hnow'.slashed receipt hreceipt)) hnow'
    · exact (hrest (hfirst.unique h)).slashed (hfirst.unique h) m r hlater

theorem step_slashes (env : MailEnv) (n : MailNode) (event : MailEvent) :
    Slashes n (event.run lib env n) := by
  cases event with
  | store remoteLabel record =>
      change Slashes n (dhtMailStore lib env remoteLabel record n)
      rw [dhtMailStore]
      split
      · exact .of_silent id rfl
      · exact .of_silent (fun h => UniqueReceipts.upsert h _) rfl
  | receipt remoteLabel received =>
      change Slashes n (dhtMailReceipt lib env remoteLabel received n)
      rw [dhtMailReceipt]
      split
      · exact .of_silent id rfl
      · dsimp only
        generalize refreshMailReceiptBond env (receivedReceipt remoteLabel received) = receipt
        split
        · exact slashMailReceipt_slashes rfl env _ _ _
        · have hissue : Slashes (n.upsert receipt)
              (maybeIssueMailStorageChallenge lib env receipt (n.upsert receipt)) :=
            (issueEffect env receipt (n.upsert receipt)).slashes
          exact ⟨fun h => hissue.unique (h.upsert _), fun h => hissue.slashed (h.upsert _)⟩
  | proof answer =>
      change Slashes n (dhtMailProof lib env answer n)
      have hlines : (n.answered answer).receiptLines = n.receiptLines := rfl
      have heffect : ProofEffect lib env answer n _ := proofEffect env answer n
      revert heffect
      generalize dhtMailProof lib env answer n = step
      intro heffect
      cases heffect with
      | unknown hlookup => exact .of_silent id rfl
      | unmatched hno => exact .of_silent id rfl
      | failed receipt reason evidence hreceipt hno =>
          exact slashMailReceipt_slashes hlines env _ _ _
      | untrusted pending receipt reason evidence hmatch huntrusted =>
          exact slashMailReceipt_slashes hlines env _ _ _
      | proved pending receipt hmatch htrusted =>
          exact .of_silent (fun h => UniqueReceipts.upsert h _) rfl
  | lookup => exact .of_silent id rfl
  | maintain => exact maintain_slashes env n
  | keep record => exact .of_silent id rfl
  | delete messageId =>
      refine .of_silent (fun h => ?_) rfl
      change UniqueNode (deleteDistributedMail messageId n)
      rw [deleteDistributedMail]
      split
      · exact UniqueReceipts.filter h _
      · exact h
  | prune => exact .of_silent (fun h => UniqueReceipts.filter h _) rfl
  | restart => exact .of_silent id rfl

/-! ## The run -/

/-- The node after a run. -/
def runMail (lib : MailLib) : MailNode → List (MailEnv × MailEvent) → MailNode
  | n, [] => n
  | n, (env, event) :: events => runMail lib (event.run lib env n).node events

theorem runMail_unique : ∀ {events : List (MailEnv × MailEvent)} {n : MailNode}, UniqueNode n →
    UniqueNode (runMail lib n events)
  | [], n, h => h
  | (env, event) :: events, n, h => by
      change UniqueNode (runMail lib (event.run lib env n).node events)
      exact runMail_unique ((step_slashes env n event).unique h)

theorem slashKept_iff_from {k : Bytes × Bytes} : ∀ (events : List (MailEnv × MailEvent))
    (n : MailNode), Settled k n → (SlashKept lib k n events ↔ SlashSafeRun lib k n events)
  | [], n, h => iff_of_true h trivial
  | (env, event) :: events, n, h => by
      rw [SlashKept, SlashSafeRun]
      constructor
      · rintro ⟨-, hkept⟩ hstored
        obtain ⟨hlog, hrest⟩ := hkept hstored
        have hafter : Settled k (event.run lib env n).node := by
          cases events with
          | nil => exact hrest
          | cons next rest => exact hrest.1
        exact ⟨(step_settled_iff env event h hstored).mp ⟨hlog, hafter⟩,
          (slashKept_iff_from events _ hafter).mp hrest⟩
      · intro hsafe
        refine ⟨h, fun hstored => ?_⟩
        obtain ⟨hevent, hrest⟩ := hsafe hstored
        obtain ⟨hlog, hafter⟩ := (step_settled_iff env event h hstored).mpr hevent
        exact ⟨hlog, (slashKept_iff_from events _ hafter).mpr hrest⟩

theorem slashKept_iff {k : Bytes × Bytes} {n : MailNode} (hslashed : Slashed k n)
    (events : List (MailEnv × MailEvent)) :
    SlashKept lib k n events ↔ Uncounted k n ∧ SlashSafeRun lib k n events := by
  constructor
  · intro hkept
    have huncounted : Uncounted k n := by
      cases events with
      | nil => exact hkept.2
      | cons next rest => exact hkept.1.2
    exact ⟨huncounted, (slashKept_iff_from events n ⟨hslashed, huncounted⟩).mp hkept⟩
  · rintro ⟨huncounted, hsafe⟩
    exact (slashKept_iff_from events n ⟨hslashed, huncounted⟩).mpr hsafe

/-- After an event of a run has slashed a pair, and as long as its message is
stored, the pair stays slashed, uncounted and unchallenged exactly if its
receipt had not been verified and every later event is safe. -/
theorem slash_permanent_iff (lib : MailLib) (recordLines : List Bytes)
    (before : List (MailEnv × MailEvent)) (env : MailEnv) (event : MailEvent) (m r : Bytes)
    (hslash : .slashed m r ∈
      (event.run lib env (runMail lib ⟨recordLines, [], ∅⟩ before)).log)
    (events : List (MailEnv × MailEvent)) :
    let n := (event.run lib env (runMail lib ⟨recordLines, [], ∅⟩ before)).node
    (Stored lib.toCrypto n.recordLines env.now m → SlashKept lib (m, r) n events) ↔
      (Stored lib.toCrypto n.recordLines env.now m →
        Uncounted (m, r) n ∧ SlashSafeRun lib (m, r) n events) := by
  have hfresh : UniqueNode ⟨recordLines, [], ∅⟩ := List.nodup_nil
  have hslashed := (step_slashes env _ event).slashed (runMail_unique hfresh) m r hslash
  exact imp_congr_right fun _ => slashKept_iff hslashed events

theorem dhtMailReceipt_recordLines (lib : MailLib) (env : MailEnv) (remoteLabel : Bytes)
    (received : MailStorageReceipt) (n : MailNode) :
    (dhtMailReceipt lib env remoteLabel received n).node.recordLines = n.recordLines := by
  rw [dhtMailReceipt]
  split
  · rfl
  · dsimp only
    generalize refreshMailReceiptBond env (receivedReceipt remoteLabel received) = receipt
    split
    · rfl
    · have heffect : IssueEffect lib receipt (n.upsert receipt) _ :=
        issueEffect env receipt (n.upsert receipt)
      revert heffect
      generalize maybeIssueMailStorageChallenge lib env receipt (n.upsert receipt) = step
      intro heffect
      cases heffect <;> rfl

/-- A receipt whose signature is invalid slashes its pair. -/
theorem slashed_of_invalid {env : MailEnv} {remoteLabel : Bytes} {received : MailStorageReceipt}
    (n : MailNode) (hmessage : received.messageId ≠ [])
    (hinvalid : verifyMailReceiptSignature lib
      (refreshMailReceiptBond env (receivedReceipt remoteLabel received)) = false) :
    .slashed received.messageId (receivedReceipt remoteLabel received).replicaLabel ∈
      (dhtMailReceipt lib env remoteLabel received n).log := by
  have hkey := (refreshMailReceiptBond_carries env (receivedReceipt remoteLabel received)).1.key
  rw [dhtMailReceipt, if_neg hmessage]
  dsimp only
  rw [if_pos hinvalid]
  obtain ⟨hmessageId, hlabel⟩ := Prod.ext_iff.mp hkey
  exact List.mem_singleton.mpr (congrArg₂ MailAction.slashed hmessageId.symm hlabel.symm)

/-- The sample receipt without a signature. -/
def unsignedReceipt : MailStorageReceipt := { sampleReceipt with providerSignatureB64 := [] }

theorem unsigned_slashed (n : MailNode) :
    .slashed [1] [2] ∈
      (MailEvent.run sampleMailLib sampleMailEnv n (.receipt [9] unsignedReceipt)).log :=
  slashed_of_invalid n (List.cons_ne_nil _ _) (by decide)

/-- A mail for message `[1]`. -/
def sampleRecord : DistributedMailRecord where
  storedAt := 1
  expiresAt := 0
  messageId := [1]
  senderAddress := [5]
  recipientAddress := [7]
  peerLabel := [9]
  payloadB64 := []

/-- A node that stores the mail. -/
def storingNode : MailNode := ⟨[serializeDistributedMailRecordLine sampleRecord], [], ∅⟩

theorem receipt_stored (received : MailStorageReceipt) (n : MailNode)
    (hlines : n.recordLines = storingNode.recordLines) :
    Stored sampleMailLib.toCrypto
      (MailEvent.run sampleMailLib sampleMailEnv n (.receipt [9] received)).node.recordLines
      sampleMailEnv.now [1] := by
  have hrecords := dhtMailReceipt_recordLines sampleMailLib sampleMailEnv [9] received n
  rw [MailEvent.run, hrecords, hlines]
  exact ⟨sampleRecord, mem_load_of_line (List.mem_singleton_self _) rfl, rfl⟩

theorem slash_permanent_sample : .slashed [1] [2] ∈
      (MailEvent.run sampleMailLib sampleMailEnv storingNode (.receipt [9] unsignedReceipt)).log ∧
    let n := (MailEvent.run sampleMailLib sampleMailEnv storingNode
      (.receipt [9] unsignedReceipt)).node
    (Stored sampleMailLib.toCrypto n.recordLines sampleMailEnv.now [1] →
        SlashKept sampleMailLib ([1], [2]) n [(sampleMailEnv, .maintain)]) ↔
      (Stored sampleMailLib.toCrypto n.recordLines sampleMailEnv.now [1] →
        Uncounted ([1], [2]) n ∧
          SlashSafeRun sampleMailLib ([1], [2]) n [(sampleMailEnv, .maintain)]) :=
  ⟨unsigned_slashed storingNode, slash_permanent_iff sampleMailLib storingNode.recordLines []
    sampleMailEnv (.receipt [9] unsignedReceipt) [1] [2] (unsigned_slashed storingNode)
    [(sampleMailEnv, .maintain)]⟩

/-- The replica sends its receipt again, now signed. -/
theorem not_slash_permanent : ¬ ∀ (lib : MailLib) (recordLines : List Bytes)
    (before : List (MailEnv × MailEvent)) (env : MailEnv) (event : MailEvent) (m r : Bytes),
    .slashed m r ∈ (event.run lib env (runMail lib ⟨recordLines, [], ∅⟩ before)).log →
    ∀ events : List (MailEnv × MailEvent),
    let n := (event.run lib env (runMail lib ⟨recordLines, [], ∅⟩ before)).node
    Stored lib.toCrypto n.recordLines env.now m → SlashKept lib (m, r) n events := by
  intro hall
  obtain ⟨hsettled, hkept⟩ := hall sampleMailLib storingNode.recordLines [] sampleMailEnv
    (.receipt [9] unsignedReceipt) [1] [2] (unsigned_slashed storingNode)
    [(sampleMailEnv, .receipt [9] sampleReceipt)] (receipt_stored _ storingNode rfl)
  have hlines := dhtMailReceipt_recordLines sampleMailLib sampleMailEnv [9]
    unsignedReceipt storingNode
  obtain ⟨hlog, hafter⟩ := hkept (receipt_stored sampleReceipt _ hlines)
  have hsafe := (dhtMailReceipt_settled_iff sampleMailEnv [9] sampleReceipt hsettled).mp
    ⟨hlog, hafter⟩
  have hinvalid := (hsafe (List.cons_ne_nil _ _) rfl).1
  exact absurd hinvalid (by decide)

end Mail

end Cryptex
