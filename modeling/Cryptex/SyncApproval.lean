import Cryptex.Network.LiveHeights
import Cryptex.RegtestRun

/-!
# The approval of the wallet state

A node that hears of a longer chain, or still has blocks to fetch, withdraws
the approval of its chain, and the wallet refuses to spend. The approval is
kept as an anchor on the active chain and the height of the network; the
wallet is locked while that height is above the best one, so that the height
which a withdrawal names decides.
-/

namespace Cryptex

namespace Blockchain

/-! ## The member functions -/

/-- The anchor is on the active chain. -/
def anchored (s : Blockchain) (approval : SyncApprovalState) : Bool :=
  approval.height ≤ s.bestHeight && s.heightMap[approval.height]? = some approval.tip

/-- `wallet_state_approved`. -/
def walletStateApproved (s : Blockchain) : Bool :=
  if s.bestHeight = 0 then false
  else
    match s.syncApproval with
    | none => true
    | some approval =>
        if approval.networkHeight > s.bestHeight then false else s.anchored approval

section

variable (env : Env)

def persistSyncApproval (s : Blockchain) : Blockchain :=
  if s.syncApproval.isSome && env.canWrite .syncApproval then
    { s with files := { s.files with syncApproval := s.syncApproval } }
  else s

/-- `set_sync_approval`. The anchor stays where it is if the approval is
withdrawn and the anchor is on the active chain. -/
def setSyncApproval (approved : Bool) (peerCount networkHeight : Nat) (s : Blockchain) :
    Blockchain :=
  let state := s.syncApproval.getD {}
  let keepExistingAnchor :=
    match s.syncApproval with
    | none => false
    | some approval => s.anchored approval
  let moved := approved || !keepExistingAnchor
  persistSyncApproval env
    { s with
      syncApproval := some
        { approved := approved
          height := if moved then s.bestHeight else state.height
          tip := if moved then s.tipHash else state.tip
          peerCount := peerCount
          networkHeight :=
            if approved then max s.bestHeight networkHeight
            else
              max state.networkHeight
                (if networkHeight = 0 then s.bestHeight + 1 else networkHeight) } }

/-- `update_chain_approval_state`, for the status of the node. -/
def updateChainApprovalState (status : Peers.SyncStatus) (s : Blockchain) : Blockchain :=
  let (approved, peerCount, networkHeight) := Peers.chainApproval status
  setSyncApproval env approved peerCount networkHeight s

end

/-! ## What leaves the approval alone -/

/-- The approval in memory and the one on disk. -/
def approvals (s : Blockchain) : Option SyncApprovalState × Option SyncApprovalState :=
  (s.syncApproval, s.files.syncApproval)

section

variable (c : Crypto) (p : ChainParams) (env : Env)

@[simp]
theorem approvals_saveIndex (s : Blockchain) : (saveIndex env s).approvals = s.approvals := by
  unfold saveIndex
  split <;> rfl

@[simp]
theorem approvals_persistHeaders (s : Blockchain) :
    (persistHeaders env s).approvals = s.approvals := by
  unfold persistHeaders
  split <;> rfl

@[simp]
theorem approvals_persistChainstate (s : Blockchain) :
    (persistChainstate env s).approvals = s.approvals := by
  unfold persistChainstate
  split <;> rfl

@[simp]
theorem approvals_persistLocalCheckpoint (s : Blockchain) :
    (persistLocalCheckpoint env s).approvals = s.approvals := by
  unfold persistLocalCheckpoint
  split <;> rfl

@[simp]
theorem approvals_persistManualCheckpoint (s : Blockchain) :
    (persistManualCheckpoint env s).approvals = s.approvals := by
  unfold persistManualCheckpoint
  split <;> rfl

@[simp]
theorem approvals_refreshLocalCheckpoint (s : Blockchain) :
    (refreshLocalCheckpoint env s).approvals = s.approvals := by
  unfold refreshLocalCheckpoint
  split
  · rfl
  · simp only
    split
    · rfl
    · split
      · rfl
      · exact approvals_persistLocalCheckpoint env _

@[simp]
theorem approvals_rebuildKnownBlockState (s : Blockchain) :
    (rebuildKnownBlockState p env s).approvals = s.approvals := by
  rw [rebuildKnownBlockState_only]
  rfl

@[simp]
theorem approvals_activatePath (s : Blockchain) (path : List Hash512) (utxo : UTXOSet)
    (bits : UInt32) : (activatePath p env s path utxo bits).2.approvals = s.approvals := by
  unfold activatePath
  cases path.mapM fun id => s.getBlockByHash id.toNat with
  | none => rfl
  | some blocks =>
      simp only
      split
      · rfl
      · simp only [approvals_persistChainstate, approvals_persistHeaders, approvals_saveIndex,
          approvals_refreshLocalCheckpoint]
        rfl

theorem approvals_purgeOne (ids : List Hash512) : ∀ (acc : Bool × Blockchain),
    (ids.foldl (purgeOne c) acc).2.approvals = acc.2.approvals := by
  induction ids with
  | nil => exact fun _ => rfl
  | cons id ids ih =>
      intro acc
      rw [List.foldl_cons, ih]
      unfold purgeOne
      simp only
      split <;> rfl

@[simp]
theorem approvals_purgeCachedSubtree (s : Blockchain) (root : Hash512) :
    (purgeCachedSubtree p env c s root).approvals = s.approvals := by
  have hfold := approvals_purgeOne c (s.purgeList c root) (false, s)
  unfold purgeCachedSubtree
  simp only
  split
  · simp only [approvals_persistHeaders, approvals_rebuildKnownBlockState]
    exact hfold
  · exact hfold

@[simp]
theorem approvals_switchTo (s : Blockchain) (path : List Hash512) (utxo : UTXOSet)
    (bits : UInt32) : (switchTo p env s path utxo bits).2.approvals = s.approvals := by
  have hactivate := approvals_activatePath p env s path utxo bits
  unfold switchTo
  split
  · rfl
  · split
    · rfl
    · split
      all_goals
        next heq =>
          rw [heq] at hactivate
          exact hactivate

@[simp]
theorem approvals_connect (skip : Bool) (s : Blockchain) (blk : Block) (height work : Nat) :
    (s.connect c p env skip blk height work).2.approvals = s.approvals := by
  unfold connect
  simp only
  split
  · rfl
  · split
    · exact approvals_purgeCachedSubtree c p env s _
    · split
      · exact approvals_switchTo p env s _ _ _
      · rfl

/-- A pass over a block leaves the approval alone. -/
theorem approvals_acceptOne (skip : Bool) (s : Blockchain) (blk : Block) :
    (s.acceptOne c p env skip blk).2.approvals = s.approvals := by
  have hcache : (s.cacheBlock c env blk).approvals = s.approvals := rfl
  unfold acceptOne
  split
  · rfl
  · simp only
    split
    · exact hcache
    · split
      · rw [approvals_connect]
        exact hcache
      · split
        · exact hcache
        · split
          · exact hcache
          · rw [approvals_connect]
            exact hcache

end

section

variable {c : Crypto} {p : ChainParams} {env : Env} {s s' : Blockchain}

theorem approvals_operated (h : Operated s s') : s'.approvals = s.approvals := by
  cases h with
  | pin env =>
      simp only [pinCheckpointToTip, approvals_persistLocalCheckpoint,
        approvals_persistManualCheckpoint]
      rfl
  | clear env =>
      simp only [clearCheckpointPin, approvals_persistLocalCheckpoint,
        approvals_refreshLocalCheckpoint]
      rfl
  | refresh env => exact approvals_refreshLocalCheckpoint env s
  | mempool m => rfl

/-! ## Loading -/

theorem approvals_activeWork : ∀ (ids : List Hash512) {h : Nat} {s s' : Blockchain},
    activeWork p s h ids = some s' → s'.approvals = s.approvals
  | [], _, _, _, hrun => by
      cases hrun
      rfl
  | id :: rest, h, s, s', hrun => by
      unfold activeWork at hrun
      split at hrun
      · cases hrun
      · simp only at hrun
        split at hrun
        · cases hrun
        · exact (approvals_activeWork rest hrun).trans rfl

theorem approvals_noteActive : ∀ (ids : List Hash512) {h : Nat} {s s' : Blockchain},
    noteActive c s h ids = some s' → s'.approvals = s.approvals
  | [], _, _, _, hrun => by
      cases hrun
      rfl
  | id :: rest, h, s, s', hrun => by
      unfold noteActive at hrun
      split at hrun
      · cases hrun
      · exact (approvals_noteActive rest hrun).trans rfl

theorem approvals_ensureActive : ∀ (ids : List Hash512) {h : Nat} {s s' : Blockchain},
    ensureActive c p s h ids = some s' → s'.approvals = s.approvals
  | [], _, _, _, hrun => by
      cases hrun
      rfl
  | id :: rest, h, s, s', hrun => by
      unfold ensureActive at hrun
      split at hrun
      · cases hrun
      · simp only at hrun
        split at hrun
        · cases hrun
        · exact (approvals_ensureActive rest hrun).trans rfl

theorem approvals_cacheActive (env : Env) : ∀ (heights : List Nat) (s : Blockchain),
    (cacheActive c env s heights).approvals = s.approvals
  | [], _ => rfl
  | h :: rest, s => by
      unfold cacheActive
      split
      · exact approvals_cacheActive env rest s
      · exact approvals_cacheActive env rest _

theorem approvals_loadIndex (s : Blockchain) : (loadIndex s).approvals = s.approvals := by
  unfold loadIndex
  split <;> rfl

theorem approvals_loadHeaders (h : loadHeaders c p s = some s') : s'.approvals = s.approvals := by
  unfold loadHeaders at h
  split at h
  · cases h
    rfl
  · obtain ⟨t, hnote, hwork⟩ := Option.bind_eq_some_iff.mp h
    rw [approvals_activeWork _ hwork, approvals_noteActive _ hnote]
    rfl

theorem approvals_rebuildFromBlocks (h : rebuildFromBlocks c p env s = some s') :
    s'.approvals = s.approvals := by
  unfold rebuildFromBlocks at h
  simp only at h
  split at h
  · cases h
    rfl
  · obtain ⟨t, hwork, rfl⟩ := Option.map_eq_some_iff.mp h
    rw [approvals_persistHeaders, approvals_saveIndex, approvals_activeWork _ hwork]
    rfl

theorem approvals_startFrom (s : Blockchain) (g : Block) :
    (startFrom c p env s g).approvals = s.approvals := by
  unfold startFrom
  simp only [approvals_persistHeaders, approvals_saveIndex]
  rfl

theorem approvals_ensureGenesis (h : ensureGenesis c p env s = some s') :
    s'.approvals = s.approvals := by
  unfold ensureGenesis at h
  split at h
  · simp only at h
    obtain ⟨t, hactive, rfl⟩ := Option.map_eq_some_iff.mp h
    rw [approvals_cacheActive, approvals_ensureActive _ hactive]
    rfl
  · split at h
    · cases h
      exact approvals_startFrom s _
    · cases h
      rw [approvals_startFrom]
      rfl

/-- Loading the chain reads none of the approval. -/
theorem approvals_loadChain {dir : DataDir} (h : loadChain c p env dir = some s) :
    s.approvals = (none, dir.files.syncApproval) := by
  obtain ⟨t, hheaders, h⟩ := Option.bind_eq_some_iff.mp h
  obtain ⟨u, hblocks, h⟩ := Option.bind_eq_some_iff.mp h
  obtain ⟨v, hgenesis, rfl⟩ := Option.map_eq_some_iff.mp h
  have hu : u.approvals = t.approvals := by
    split at hblocks
    · exact approvals_rebuildFromBlocks hblocks
    · cases hblocks
      rfl
  rw [approvals_rebuildKnownBlockState, approvals_ensureGenesis hgenesis, hu,
    approvals_loadHeaders hheaders, approvals_loadIndex]
  rfl

theorem approvals_loadUtxo (env : Env) (s : Blockchain) :
    (loadUtxo c env s).approvals = s.approvals := by
  have hsnapshot : (loadChainstateSnapshot s).2.approvals = s.approvals := by
    unfold loadChainstateSnapshot
    split
    · rfl
    · split <;> rfl
  unfold loadUtxo
  split
  · next heq =>
      rw [heq] at hsnapshot
      exact hsnapshot
  · next heq =>
      rw [heq] at hsnapshot
      rw [approvals_persistChainstate]
      exact hsnapshot

theorem approvals_loadState (env : Env) (s : Blockchain) :
    (loadState c env s).approvals = (s.files.syncApproval, s.files.syncApproval) := by
  rw [loadState, approvals_loadUtxo]
  unfold loadSyncApproval loadManualCheckpoint loadLocalCheckpoint
  split <;> rfl

/-! ## A height of the network above the chain -/

/-- A record that names a height of the network above `n`. -/
def Raised (n : Nat) (approval : Option SyncApprovalState) : Prop :=
  ∃ a, approval = some a ∧ n < a.networkHeight

/-- The record in memory names one, and the one on disk too if it was
written. -/
structure Withheld (n : Nat) (written : Bool) (s : Blockchain) : Prop where
  memory : Raised n s.syncApproval
  file : written = true → Raised n s.files.syncApproval

variable {n : Nat} {written : Bool}

theorem Withheld.congr (h : s.Withheld n written) (heq : s'.approvals = s.approvals) :
    s'.Withheld n written := by
  have hmemory : s'.syncApproval = s.syncApproval := congrArg Prod.fst heq
  have hfile : s'.files.syncApproval = s.files.syncApproval := congrArg Prod.snd heq
  exact ⟨hmemory ▸ h.memory, hfile ▸ h.file⟩

theorem Withheld.locked (h : s.Withheld n written) (hbest : s.bestHeight ≤ n) :
    s.walletStateApproved = false := by
  obtain ⟨a, ha, hn⟩ := h.memory
  unfold walletStateApproved
  split
  · rfl
  · rw [ha]
    exact if_pos (by omega)

/-- Revoking an approval never lowers the height of the network. -/
theorem Withheld.revoke (h : s.Withheld n written) {a : SyncApprovalState}
    (ha : s.syncApproval = some a) : (revokeSyncApproval env s a).Withheld n written := by
  obtain ⟨b, hb, hn⟩ := h.memory
  cases ha.symm.trans hb
  have hraised : Raised n (revokeSyncApproval env s a).syncApproval :=
    ⟨_, rfl, lt_of_lt_of_le hn (le_max_left _ _)⟩
  refine ⟨hraised, fun hw => ?_⟩
  unfold revokeSyncApproval
  simp only
  split
  · exact hraised
  · exact h.file hw

theorem Withheld.repair (h : s.Withheld n written) :
    (repairActiveChainIfNeeded c p env s).2.Withheld n written := by
  have hdrop : ∀ (ids : List Hash512) (t : Blockchain),
      (ids.foldl (dropOne c) t).approvals = t.approvals := by
    intro ids
    induction ids with
    | nil => exact fun _ => rfl
    | cons id ids ih => exact fun t => ih _
  unfold repairActiveChainIfNeeded
  simp only
  split
  · exact h
  · split
    · exact h
    · split
      · exact h
      · have hactivate : ∀ ids utxo bits, (activatePath p env
            ((s.heightMap.drop ids).foldl (dropOne c) s) (s.heightMap.take ids) utxo bits).2.approvals
              = s.approvals := fun ids utxo bits => by rw [approvals_activatePath, hdrop]
        have hactivated := hactivate
          (s.validatedPrefixLength c p env false s.heightMap).length
          (s.validatedPrefixLength c p env false s.heightMap).utxo
          (s.validatedPrefixLength c p env false s.heightMap).tipBits
        split
        · next heq =>
            rw [heq] at hactivated
            exact h.congr hactivated
        · next t heq =>
            rw [heq] at hactivated
            have ht : (rebuildKnownBlockState p env t).Withheld n written :=
              h.congr ((approvals_rebuildKnownBlockState p env t).trans hactivated)
            split
            · exact ht
            · next hsome =>
                split
                · exact ht.revoke hsome
                · exact ht

theorem Withheld.repairHeightFiles (h : s.Withheld n written) :
    (repairHeightFilesIfNeeded env s).2.Withheld n written := by
  unfold repairHeightFilesIfNeeded
  simp only
  split <;> exact h.congr rfl

theorem Withheld.clearStale (h : s.Withheld n written) :
    (clearStaleLocalCheckpointIfNeeded env s).2.Withheld n written := by
  unfold clearStaleLocalCheckpointIfNeeded
  split
  · exact h
  · split
    · exact h
    · simp only
      have hcleared : ∀ files : ChainFiles, files.syncApproval = s.files.syncApproval →
          ({ s with
            manualCheckpointPinned := false
            files := files
            localCheckpoint := none } : Blockchain).Withheld n written :=
        fun files hfiles => ⟨h.memory, fun hw => hfiles ▸ h.file hw⟩
      have hfiles : (if s.manualCheckpointPinned then { s.files with manualCheckpoint := none }
          else s.files).syncApproval = s.files.syncApproval := by
        split <;> rfl
      split
      · exact hcleared _ hfiles
      · next hsome =>
          split
          · exact (hcleared _ hfiles).revoke hsome
          · exact hcleared _ hfiles

theorem Withheld.settle {repaired : Bool} (h : s.Withheld n written) :
    (settleCheckpoint env repaired s).Withheld n written := by
  have hclear : (clearStaleLocalCheckpointIfNeeded env s).2.Withheld n written := h.clearStale
  unfold settleCheckpoint
  split
  · exact h
  · split
    · exact h.congr (approvals_refreshLocalCheckpoint env s)
    · split
      · next heq =>
          rw [heq] at hclear
          exact hclear.congr (approvals_refreshLocalCheckpoint env _)
      · next heq =>
          rw [heq] at hclear
          exact hclear

theorem Withheld.finish {repaired : Bool} (h : s.Withheld n written)
    (hfinish : finish c env repaired s = some s') : s'.Withheld n written := by
  have hrepaired : (repairHeightFilesIfNeeded env s).2.Withheld n written := h.repairHeightFiles
  unfold Blockchain.finish at hfinish
  generalize repairHeightFilesIfNeeded env s = res at hfinish hrepaired
  obtain ⟨restored, t⟩ := res
  simp only at hfinish hrepaired
  split at hfinish
  · cases hfinish
  · have hsettled : (settleCheckpoint env repaired t).Withheld n written := hrepaired.settle
    have hloaded : (loadUtxo c env (refreshLocalCheckpoint env (settleCheckpoint env repaired t))
        ).Withheld n written :=
      hsettled.congr ((approvals_loadUtxo env _).trans (approvals_refreshLocalCheckpoint env _))
    cases hfinish
    split
    · exact hloaded.congr (approvals_persistChainstate env _)
    · exact hloaded

/-- A start finds the height of the network that was written. -/
theorem withheld_openDir {dir : DataDir} (h : openDir c p env dir = some s)
    (hfile : Raised n dir.files.syncApproval) : s.Withheld n written := by
  rw [openDir_eq] at h
  obtain ⟨t, hload, hfinish⟩ := Option.bind_eq_some_iff.mp h
  have htfile : t.files.syncApproval = dir.files.syncApproval :=
    congrArg Prod.snd (approvals_loadChain hload)
  have hstate : (loadState c env t).Withheld n written := by
    have happrovals : (loadState c env t).approvals = _ := approvals_loadState env t
    rw [htfile] at happrovals
    have hmemory : (loadState c env t).syncApproval = dir.files.syncApproval :=
      congrArg Prod.fst happrovals
    have hdisk : (loadState c env t).files.syncApproval = dir.files.syncApproval :=
      congrArg Prod.snd happrovals
    exact ⟨hmemory ▸ hfile, fun _ => hdisk ▸ hfile⟩
  exact hstate.repair.finish hfinish

end

/-! ## After a withdrawal -/

/-- What can happen to a chain before it is approved again. A restart is one
of them if the record was written. -/
inductive Unapproved (c : Crypto) (p : ChainParams) (written : Bool) (s : Blockchain) :
    Blockchain → Prop where
  | delivered {s'} : Delivered c p Set.univ (fun _ _ _ _ => True) s s' → Unapproved c p written s s'
  | operated {s'} : Operated s s' → Unapproved c p written s s'
  | withdrawn (env : Env) (peerCount networkHeight : Nat) :
      Unapproved c p written s (setSyncApproval env false peerCount networkHeight s)
  | reopened {env s'} : written = true → openDir c p env s.dataDir = some s' →
      Unapproved c p written s s'

/-- Any number of such steps, each of which leaves the active chain as it is. -/
abbrev StaysUnapproved (c : Crypto) (p : ChainParams) (written : Bool) :
    Blockchain → Blockchain → Prop :=
  Relation.ReflTransGen fun s s' => Unapproved c p written s s' ∧
    s'.heightMap = s.heightMap ∧ s'.bestHeight = s.bestHeight

/-- The withdrawal names a height above the chain: its own, the one after the
tip that stands for none, or the one that was named before. -/
def NamesHigher (s : Blockchain) (networkHeight : Nat) : Prop :=
  networkHeight = 0 ∨ s.bestHeight < networkHeight ∨ Raised s.bestHeight s.syncApproval

section

variable {c : Crypto} {p : ChainParams} {env : Env} {s s' : Blockchain} {n : Nat} {written : Bool}

theorem setSyncApproval_eq (env : Env) (approved : Bool) (peerCount networkHeight : Nat)
    (s : Blockchain) : ∃ a, setSyncApproval env approved peerCount networkHeight s = { s with
      syncApproval := some a
      files :=
        if env.canWrite .syncApproval then { s.files with syncApproval := some a } else s.files } ∧
      a.networkHeight =
        if approved then max s.bestHeight networkHeight
        else
          max (s.syncApproval.getD {}).networkHeight
            (if networkHeight = 0 then s.bestHeight + 1 else networkHeight) := by
  unfold setSyncApproval persistSyncApproval
  simp only [Option.isSome_some, Bool.true_and]
  split <;> exact ⟨_, rfl, rfl⟩

/-- A withdrawal leaves the anchor on the active chain. -/
theorem anchored_withdrawn (env : Env) (peerCount networkHeight : Nat)
    (htip : s.heightMap[s.bestHeight]? = some s.tipHash) {a : SyncApprovalState}
    (ha : (setSyncApproval env false peerCount networkHeight s).syncApproval = some a) :
    s.anchored a = true := by
  unfold setSyncApproval persistSyncApproval at ha
  simp only [Option.isSome_some, Bool.true_and, Bool.false_or] at ha
  have hmoved : ∀ b : SyncApprovalState, b.height = s.bestHeight → b.tip = s.tipHash →
      s.anchored b = true := by
    intro b hheight hhash
    simp [anchored, hheight, hhash, htip]
  cases hold : s.syncApproval with
  | none =>
      rw [hold] at ha
      refine hmoved a ?_ ?_ <;> split at ha <;> cases ha <;> rfl
  | some old =>
      rw [hold] at ha
      cases hkeep : s.anchored old with
      | false =>
          refine hmoved a ?_ ?_ <;> split at ha <;> cases ha <;> simp [hkeep]
      | true =>
          have heq : a.height = old.height ∧ a.tip = old.tip := by
            split at ha <;> cases ha <;> simp [hkeep]
          unfold anchored at hkeep ⊢
          rw [heq.1, heq.2]
          exact hkeep

/-- A withdrawal never lowers the height of the network. -/
theorem Withheld.withdrawn (h : s.Withheld n written) (env : Env)
    (peerCount networkHeight : Nat) :
    (setSyncApproval env false peerCount networkHeight s).Withheld n written := by
  obtain ⟨a, heq, hheight⟩ := setSyncApproval_eq env false peerCount networkHeight s
  obtain ⟨b, hb, hn⟩ := h.memory
  have hraised : Raised n (some a) := by
    refine ⟨a, rfl, ?_⟩
    rw [hheight, hb]
    exact lt_of_lt_of_le hn (le_max_left _ _)
  rw [heq]
  refine ⟨hraised, fun hw => ?_⟩
  simp only
  split
  · exact hraised
  · exact h.file hw

theorem withheld_of_namesHigher (env : Env) (peerCount : Nat) {networkHeight : Nat}
    (h : s.NamesHigher networkHeight) :
    (setSyncApproval env false peerCount networkHeight s).Withheld s.bestHeight
      (env.canWrite .syncApproval) := by
  obtain ⟨a, heq, hheight⟩ := setSyncApproval_eq env false peerCount networkHeight s
  have hraised : Raised s.bestHeight (some a) := by
    refine ⟨a, rfl, ?_⟩
    rw [hheight, if_neg (by decide), lt_max_iff]
    obtain rfl | habove | ⟨b, hb, hn⟩ := h
    · exact Or.inr (by simp)
    · exact Or.inr (by split <;> omega)
    · rw [hb]
      exact Or.inl hn
  rw [heq]
  refine ⟨hraised, fun hw => ?_⟩
  simp only [if_pos hw]
  exact hraised

theorem Unapproved.withheld (hstep : Unapproved c p written s s') (h : s.Withheld n written) :
    s'.Withheld n written := by
  cases hstep with
  | delivered hdelivered =>
      exact hdelivered.invariant (I := fun t => t.Withheld n written)
        (fun env skip t blk ht _ _ => ht.congr (approvals_acceptOne c p env skip t blk))
        (fun _ _ _ _ _ => Set.mem_univ _) h
  | operated hoperated => exact h.congr (approvals_operated hoperated)
  | withdrawn env peerCount networkHeight => exact h.withdrawn env peerCount networkHeight
  | reopened hwritten hopen => exact withheld_openDir hopen (h.file hwritten)

/-- The chain stays the same over a run, and so does what is withheld. -/
theorem StaysUnapproved.withheld (hrun : StaysUnapproved c p written s s')
    (h : s.Withheld n written) : s'.Withheld n written ∧ s'.bestHeight = s.bestHeight := by
  induction hrun with
  | refl => exact ⟨h, rfl⟩
  | tail _ hstep ih => exact ⟨hstep.1.withheld ih.1, hstep.2.2.trans ih.2⟩

/-- Once withdrawn, an approval stays withdrawn if and only if the chain is
the genesis block alone, or a height above it is named. -/
theorem walletStateApproved_withdrawn_iff (env : Env) (peerCount networkHeight : Nat)
    (htip : s.heightMap[s.bestHeight]? = some s.tipHash) :
    (∀ s', StaysUnapproved c p (env.canWrite .syncApproval)
        (setSyncApproval env false peerCount networkHeight s) s' →
      s'.walletStateApproved = false) ↔ s.bestHeight = 0 ∨ s.NamesHigher networkHeight := by
  obtain ⟨a, heq, hheight⟩ := setSyncApproval_eq env false peerCount networkHeight s
  have hbest : (setSyncApproval env false peerCount networkHeight s).bestHeight = s.bestHeight := by
    rw [heq]
  constructor
  · intro hlocked
    by_contra hno
    obtain ⟨hpos, hlow⟩ := not_or.mp hno
    obtain ⟨hnonzero, hle, hold⟩ : networkHeight ≠ 0 ∧ networkHeight ≤ s.bestHeight ∧
        ¬ Raised s.bestHeight s.syncApproval := by
      simpa only [NamesHigher, not_or, Nat.not_lt] using hlow
    have hbelow : a.networkHeight ≤ s.bestHeight := by
      rw [hheight, if_neg (by decide), if_neg hnonzero]
      refine max_le ?_ hle
      cases hsome : s.syncApproval with
      | none => exact Nat.zero_le _
      | some b => exact Nat.not_lt.mp fun hn => hold ⟨b, hsome, hn⟩
    have hanchor : s.anchored a = true :=
      anchored_withdrawn env peerCount networkHeight htip (by rw [heq])
    have hnow := hlocked _ Relation.ReflTransGen.refl
    rw [heq] at hnow
    unfold walletStateApproved at hnow
    simp only [if_neg hpos, if_neg (Nat.not_lt.mpr hbelow)] at hnow
    have hthen : s.anchored a = false := hnow
    rw [hanchor] at hthen
    cases hthen
  · rintro (hzero | hnames) s' hrun
    · have hsame : s'.bestHeight = 0 := by
        have hconst : s'.bestHeight = s.bestHeight := by
          clear hzero hheight
          induction hrun with
          | refl => exact hbest
          | tail _ hstep ih => exact hstep.2.2.trans ih
        rw [hconst, hzero]
      exact if_pos hsame
    · obtain ⟨hheld, hsame⟩ :=
        hrun.withheld (withheld_of_namesHigher env peerCount hnames)
      exact hheld.locked (by rw [hsame, hbest])

/-- A peer that announces more than the chain has locks the wallet. -/
theorem namesHigher_of_longer {status : Peers.SyncStatus}
    (h : s.bestHeight < status.bestPeerHeight) :
    s.NamesHigher (Peers.chainApproval status).2.2 := by
  rw [Peers.chainApproval, if_pos (Or.inr (by omega))]
  exact Or.inr (Or.inl h)

end

/-! ## Blocks in flight -/

section

open Peers Regtest

theorem withdrawn_above_tip : ∃ s, Regtest.after [a1] = some s ∧ ∀ s',
    StaysUnapproved crypto .regtest (Regtest.env.canWrite .syncApproval)
      (setSyncApproval Regtest.env false 1 2 s) s' → s'.walletStateApproved = false := by
  have hbest : (Regtest.after [a1]).map Blockchain.bestHeight = some 1 := by decide +kernel
  obtain ⟨s, hs, hone⟩ := Option.map_eq_some_iff.mp hbest
  have htip : s.heightMap[s.bestHeight]? = some s.tipHash :=
    ((reachable_after (by decide) hs).any_coherent collisionFree).heightMap_best
  have hnames : s.NamesHigher 2 := Or.inr (Or.inl (by rw [hone]; exact Nat.lt_add_one 1))
  exact ⟨s, hs, (walletStateApproved_withdrawn_iff Regtest.env 1 2 htip).mpr (Or.inr hnames)⟩

/-- A peer connects, names the height of the chain, and announces another
block of that height. -/
def rivalPeer (χ : Type) : List (PeerEvent χ) :=
  [.accept ⟨.v4 ⟨0x0A000001⟩, 50000⟩, .version 0 (versionAt 1 1) false,
    .headers 0 (writeVarint 1 ++ writeBytes b1.header.serialize) false]

/-- The approval is withdrawn while the block is in flight, and the wallet
stays approved. -/
theorem rival_stays_approved : (Regtest.after [a1]).map (fun s =>
      let n := runPeers (peerChain crypto .regtest Regtest.env 10) crypto 9000 (freshPeerNode s)
        (rivalPeer Blockchain)
      let status := syncStatus (peerChain crypto .regtest Regtest.env 10) n
      (status.inflightBlocks, chainApproval status,
        (updateChainApprovalState Regtest.env status n.net.chain).walletStateApproved))
    = some (1, (false, 1, 1), true) := by
  decide +kernel

end

end Blockchain

end Cryptex
