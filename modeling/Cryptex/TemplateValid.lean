import Cryptex.Mineable
import Cryptex.RegtestRun
import Cryptex.Timestamps

/-!
# Are templates valid?

A template takes the pool in the order of the fee rates and counts the bytes
of its transactions only. `Mineable` lists what has to come true for the block
to pass the dry run; everything else the dry run checks holds of every
template (`Reachable.templates_valid`).
-/

namespace Cryptex

namespace Blockchain

/-! ## The condition -/

section

variable (c : Crypto) (env : Env) (s : Blockchain) (scriptPubKey : Vec UInt8)

/-- The fees that the pool has recorded for the chosen transactions. -/
def chosenFees : Int64 :=
  (chosen c env s scriptPubKey).foldl (fun sum tx => sum + s.mempool.feeOf c tx) 0

/-- The bytes of the block: header, count, and every transaction behind its length. -/
def templateSize : Nat :=
  80 + (writeVarint ((chosen c env s scriptPubKey).length + 1)).length +
    ((nextCoinbase c env s scriptPubKey :: chosen c env s scriptPubKey).map
      fun tx => (writeBytes tx.serialize).length).sum

/-- What a template needs beyond the checks of the mempool. -/
structure Mineable : Prop where
  /-- parents in the pool come before their children -/
  parentsFirst : ∀ before tx after, chosen c env s scriptPubKey = before ++ tx :: after →
    ∀ txin ∈ tx.inputs.toList, s.utxo.lookup txin.prevout = none →
      ∃ parent ∈ before, parent.hash c = txin.prevout.txHash
  /-- nothing spends the new coinbase -/
  notOwnCoinbase : ∀ tx ∈ chosen c env s scriptPubKey, ∀ txin ∈ tx.inputs.toList,
    txin.prevout.txHash ≠ (nextCoinbase c env s scriptPubKey).hash c
  /-- outputs and fee of a transaction together do not wrap -/
  amounts : ∀ tx ∈ chosen c env s scriptPubKey,
    tx.totalOutputValue ≤ s.mempool.feeOf c tx + tx.totalOutputValue
  /-- subsidy and fees together do not wrap below the subsidy -/
  fees : getBlockReward (s.bestHeight + 1)
    ≤ getBlockReward (s.bestHeight + 1) + chosenFees c env s scriptPubKey
  count : (chosen c env s scriptPubKey).length < Constants.maxTransactionsPerBlock
  size : templateSize c env s scriptPubKey ≤ Constants.maxBlockSizeBytes

end

variable {c : Crypto} {p : ChainParams} {env : Env} {H : Set BlockHeader} {s : Blockchain}
  {scriptPubKey : Vec UInt8}

/-! ## What always holds of a template -/

theorem length_serialize_header (h : BlockHeader) : h.serialize.length = 80 := by
  simp [BlockHeader.serialize, writeI32, writeU32]

theorem length_serialize_templateBlock :
    (templateBlock c p env s scriptPubKey).serialize.length = templateSize c env s scriptPubKey := by
  rw [Block.serialize, List.length_append, List.length_append, length_serialize_header,
    List.length_flatMap, templateSize]
  rfl

theorem coinbaseOut_templateBlock : coinbaseOut (templateBlock c p env s scriptPubKey)
    = getBlockReward (s.bestHeight + 1) := by
  simp [coinbaseOut, templateBlock, nextCoinbase, templateCoinbase, Transaction.totalOutputValue]

/-- The clock is never ahead of itself. -/
theorem timestamp_templateBlock
    (hclock : ∀ hdr, s.tipHeader = some hdr → hdr.timestamp < UInt32.ofNat env.now) :
    blockTimestampValid p env.now (templateBlock c p env s scriptPubKey).header s.tipHeader
      = true := by
  have hnow : (UInt32.ofNat env.now).toNat ≤ env.now := by
    rw [UInt32.toNat_ofNat']
    exact Nat.mod_le _ _
  have hfuture : blockTimestampTooFarInFuture p env.now (UInt32.ofNat env.now) = false := by
    unfold blockTimestampTooFarInFuture
    split
    · rfl
    · rw [decide_eq_false_iff_not]
      omega
  unfold blockTimestampValid
  rw [templateBlock, hfuture, if_neg Bool.false_ne_true]
  cases hhdr : s.tipHeader with
  | none => rfl
  | some hdr =>
      simp only [Bool.not_eq_true', decide_eq_false_iff_not]
      exact UInt32.not_le.mpr (hclock hdr hhdr)

/-- The dry run of a template comes down to its size and its transactions. -/
theorem extendsTip_templateBlock
    (hclock : ∀ hdr, s.tipHeader = some hdr → hdr.timestamp < UInt32.ofNat env.now) :
    ExtendsTip c p env s (templateBlock c p env s scriptPubKey) true ↔
      (chosen c env s scriptPubKey).length < Constants.maxTransactionsPerBlock ∧
      templateSize c env s scriptPubKey ≤ Constants.maxBlockSizeBytes ∧
      ∃ map totalFees, applyTransactions c (UInt32.ofNat (s.bestHeight + 1)) 0
          (nextCoinbase c env s scriptPubKey :: chosen c env s scriptPubKey) s.utxo 0
            = (map, .ok totalFees) ∧
        getBlockReward (s.bestHeight + 1) ≤ getBlockReward (s.bestHeight + 1) + totalFees := by
  constructor
  · intro h
    refine ⟨h.count, ?_, ?_⟩
    · rw [← length_serialize_templateBlock (p := p)]
      exact h.size
    · obtain ⟨map, totalFees, happ, hle⟩ := h.transactions
      rw [coinbaseOut_templateBlock] at hle
      exact ⟨map, totalFees, happ, Int64.not_lt.mp hle⟩
  · rintro ⟨hcount, hsize, map, totalFees, happ, hle⟩
    refine ⟨rfl, (fun h => by cases h), rfl, hcount, ?_, timestamp_templateBlock hclock, rfl,
      ⟨_, _, rfl, templateCoinbase_isCoinbase _ _ _ _⟩, map, totalFees, happ, ?_⟩
    · rw [length_serialize_templateBlock]
      exact hsize
    · rw [coinbaseOut_templateBlock]
      exact Int64.not_lt.mpr hle

/-! ## The transactions of a template -/

/-- The chosen transactions are applied after the coinbase exactly when each
is ready in its place. -/
theorem applyTransactions_template {T : Set Transaction} {total : Int64}
    (hheight : s.bestHeight + 1 < 2 ^ 32)
    (hpool : Mempool.Reachable c (.offered s.utxo (UInt32.ofNat s.bestHeight) T) s.mempool)
    (hids : DistinctIds c s.utxo (insert (nextCoinbase c env s scriptPubKey) T)) :
    (∃ map, applyTransactions c (UInt32.ofNat (s.bestHeight + 1)) 0
        (nextCoinbase c env s scriptPubKey :: chosen c env s scriptPubKey) s.utxo 0
          = (map, .ok total)) ↔
      AllReady c s.utxo (nextCoinbase c env s scriptPubKey) (s.mempool.feeOf c) []
        (chosen c env s scriptPubKey) ∧ total = chosenFees c env s scriptPubKey := by
  have hcons : s.mempool.Consistent c := (Mempool.sound_of_reachable hpool).consistent
  have hbacked := Mempool.backed_of_reachable hpool
  have hsub : (chosen c env s scriptPubKey).Sublist s.mempool.getTransactions :=
    takeFitting_sublist _ _
  have hisCb : (nextCoinbase c env s scriptPubKey).isCoinbase = true :=
    templateCoinbase_isCoinbase _ _ _ _
  have hnext : (UInt32.ofNat (s.bestHeight + 1)).toNat
      = (UInt32.ofNat s.bestHeight).toNat + 1 := by
    rw [UInt32.toNat_ofNat', UInt32.toNat_ofNat']
    omega
  have hstart : ∀ o, (UTXOSet.addOutputs c s.utxo (nextCoinbase c env s scriptPubKey)
      (UInt32.ofNat (s.bestHeight + 1))).lookup o = foundAfter c s.utxo
        (nextCoinbase c env s scriptPubKey) (UInt32.ofNat (s.bestHeight + 1)) [] o := by
    intro o
    rw [UTXOSet.lookup_addOutputs (by simp [nextCoinbase, templateCoinbase]), foundAfter,
      List.findSome?_cons]
    cases UTXOSet.created c (nextCoinbase c env s scriptPubKey)
      (UInt32.ofNat (s.bestHeight + 1)) o <;> rfl
  rw [applyTransactions, UTXOSet.applyTransaction, hisCb, if_pos rfl]
  simp only [if_true]
  refine applyTransactions_backed hnext hids (Set.mem_insert _ _) hisCb ?_ ?_
    (fun tx htx => by cases htx) (fun tx htx => by cases htx) (fun _ _ txin _ => hstart _)
  · intro tx htx
    obtain ⟨e, he, rfl⟩ := Mempool.mem_getTransactions hcons (hsub.subset htx)
    obtain ⟨hoffered, hspend, houtputs, hnd, hnonneg, entries, hall, hauth, hfee⟩ :=
      hbacked _ e he
    refine ⟨e, ⟨Set.mem_insert_of_mem _ hoffered, hspend, houtputs, hnd, hnonneg, entries,
      hall.imp fun txin entry hb => ?_, hauth, hfee⟩, rfl, by rw [Mempool.feeOf, he]; rfl⟩
    rcases hb with hconfirmed | ⟨hnone, parent, hparent, hrest⟩
    · exact Or.inl hconfirmed
    · exact Or.inr ⟨hnone, parent, Set.mem_insert_of_mem _ hparent, hrest⟩
  · have hnodup : (s.mempool.getTransactions.map (·.hash c)).Nodup :=
      Mempool.nodup_getTransactions hcons
    have hpair : s.mempool.getTransactions.Pairwise fun tx tx' => ∀ i ∈ tx.inputs.toList,
        ∀ j ∈ tx'.inputs.toList, i.prevout ≠ j.prevout := by
      refine (List.pairwise_map.mp hnodup).imp_of_mem fun htx htx' hne i hi j hj => ?_
      exact hcons.disjoint htx htx' hne hi hj
    exact hpair.sublist hsub

theorem mineable_iff : Mineable c env s scriptPubKey ↔
    (chosen c env s scriptPubKey).length < Constants.maxTransactionsPerBlock ∧
    templateSize c env s scriptPubKey ≤ Constants.maxBlockSizeBytes ∧
    AllReady c s.utxo (nextCoinbase c env s scriptPubKey) (s.mempool.feeOf c) []
      (chosen c env s scriptPubKey) ∧
    getBlockReward (s.bestHeight + 1)
      ≤ getBlockReward (s.bestHeight + 1) + chosenFees c env s scriptPubKey := by
  constructor
  · intro h
    refine ⟨h.count, h.size, fun before tx after heq => ⟨fun txin htxin => ⟨?_, ?_⟩, ?_⟩, h.fees⟩
    · exact h.notOwnCoinbase tx (by rw [heq]; simp) txin htxin
    · rw [List.nil_append]
      exact h.parentsFirst before tx after heq txin htxin
    · exact h.amounts tx (by rw [heq]; simp)
  · rintro ⟨hcount, hsize, hready, hfees⟩
    refine ⟨fun before tx after heq txin htxin => ?_, fun tx htx => ?_, fun tx htx => ?_, hfees,
      hcount, hsize⟩
    · have := ((hready before tx after heq).inputs txin htxin).2
      rwa [List.nil_append] at this
    · obtain ⟨before, after, heq⟩ := List.append_of_mem htx
      exact fun txin htxin => ((hready before tx after heq).inputs txin htxin).1
    · obtain ⟨before, after, heq⟩ := List.append_of_mem htx
      exact (hready before tx after heq).amounts

/-- A template for a script passes the dry run exactly when it is mineable. -/
theorem templateBlock_valid_iff {T : Set Transaction} (hheight : s.bestHeight + 1 < 2 ^ 32)
    (hpool : Mempool.Reachable c (.offered s.utxo (UInt32.ofNat s.bestHeight) T) s.mempool)
    (hids : DistinctIds c s.utxo (insert (nextCoinbase c env s scriptPubKey) T))
    (hclock : ∀ hdr, s.tipHeader = some hdr → hdr.timestamp < UInt32.ofNat env.now) :
    diagnoseTipCandidate c p env s (templateBlock c p env s scriptPubKey) true
        = .validTipExtension ↔ Mineable c env s scriptPubKey := by
  rw [diagnoseTipCandidate_valid_iff, extendsTip_templateBlock hclock, mineable_iff]
  refine and_congr_right fun _ => and_congr_right fun _ => ?_
  constructor
  · rintro ⟨map, totalFees, happ, hle⟩
    obtain ⟨hready, rfl⟩ := (applyTransactions_template hheight hpool hids).mp ⟨map, happ⟩
    exact ⟨hready, hle⟩
  · rintro ⟨hready, hle⟩
    obtain ⟨map, happ⟩ := (applyTransactions_template hheight hpool hids).mpr ⟨hready, rfl⟩
    exact ⟨map, _, happ, hle⟩

/-- In every run from nothing, with a mempool filled over the tip, the
templates of the RPC server and of the miner pass the dry run exactly when
they are mineable. -/
theorem Reachable.templates_valid {T : Set Transaction} {canonicalize : Canonicalize}
    {address : Vec UInt8} (hH : CollisionFree c H) (h : Reachable c p H (Rules.fresh c p H) s)
    (hpool : Mempool.Reachable c (.offered s.utxo (UInt32.ofNat s.bestHeight) T) s.mempool)
    (hids : ∀ script, canonicalize address = some script ∨ minerScript canonicalize address = script →
      DistinctIds c s.utxo (insert (nextCoinbase c env s script) T))
    (hclock : ∀ hdr, s.tipHeader = some hdr → hdr.timestamp < UInt32.ofNat env.now) :
    (∀ script blk, canonicalize address = some script →
      buildBlockTemplate c p env canonicalize s address = some blk →
      (diagnoseTipCandidate c p env s blk true = .validTipExtension ↔ Mineable c env s script)) ∧
    (diagnoseTipCandidate c p env s (buildTemplate c p env canonicalize s address) true
        = .validTipExtension ↔ Mineable c env s (minerScript canonicalize address)) := by
  have hheight := (h.timed hH).2.height_lt hclock
  constructor
  · intro script blk hscript hblk
    rw [buildBlockTemplate, hscript, Option.map_some, Option.some.injEq] at hblk
    rw [← hblk]
    exact templateBlock_valid_iff hheight hpool (hids script (Or.inl hscript)) hclock
  · exact templateBlock_valid_iff hheight hpool (hids _ (Or.inr rfl)) hclock

/-! ## A pool with a parent and a child -/

open Regtest

def aliceOnly : Canonicalize := fun a => if a = aliceAddress then some aliceCanonical else none

/-- What a call of `add_transaction` reads when the pool is filled at the tip. -/
def tipContext (s : Blockchain) : Mempool.Context :=
  { context s.utxo with currentHeight := UInt32.ofNat s.bestHeight }

/-- The transactions of a template with a child of `grantPayment` in the pool. -/
def templateIds (s : Blockchain) (child : Transaction) : List Hash256 :=
  [nextCoinbase crypto Regtest.env s aliceCanonical, grantPayment, child].map (·.hash crypto)

/-- `grantPayment` and a child of it are added on top of `f1`. -/
structure PoolRun (child : Transaction) (s : Blockchain) : Prop where
  reachable : Reachable crypto .regtest Regtest.H (Rules.fresh crypto .regtest Regtest.H) s
  pool : Mempool.Reachable crypto (.offered s.utxo (UInt32.ofNat s.bestHeight)
    {tx | tx ∈ [grantPayment, child]}) s.mempool
  ids : DistinctIds crypto s.utxo
    (insert (nextCoinbase crypto Regtest.env s aliceCanonical) {tx | tx ∈ [grantPayment, child]})
  clock : ∀ hdr, s.tipHeader = some hdr → hdr.timestamp < UInt32.ofNat Regtest.env.now

theorem distinctIds_of_list {c : Crypto} {utxo : UTXOSet} {txs : List Transaction}
    (hnd : (txs.map (·.hash c)).Nodup) (hnew : ∀ o ∈ utxo.keys, o.txHash ∉ txs.map (·.hash c)) :
    DistinctIds c utxo {tx | tx ∈ txs} := by
  refine ⟨fun tx htx tx' htx' heq => List.inj_on_of_nodup_map hnd htx htx' heq,
    fun tx htx o e ho hid => ?_⟩
  have hmem : o ∈ utxo.keys := Finmap.mem_keys.mpr (Finmap.mem_of_lookup_eq_some ho)
  exact absurd (hid ▸ List.mem_map_of_mem htx) (hnew o hmem)

/-- What a run with a child comes to: the passes of the calls, the clock, the
ids, and the report on the template. -/
def pooledRun (child : Transaction) : Option ((Bool × Bool × Bool) × (Bool × Bool × TipReport)) :=
  (after [f1]).bind fun s =>
    (Mempool.addTransaction crypto (tipContext s) 2 .empty grantPayment).bind fun x =>
      (Mempool.addTransaction crypto (tipContext s) 2 x.2 child).map fun y =>
        ((decide (∀ z ∈ Mempool.passes crypto (tipContext s) 2 .empty grantPayment,
              z.2 ∈ [grantPayment, child]),
            decide (∀ z ∈ Mempool.passes crypto (tipContext s) 2 x.2 child,
              z.2 ∈ [grantPayment, child]),
            (s.tipHeader.map fun hdr => decide (hdr.timestamp < UInt32.ofNat Regtest.env.now)).getD true),
          (decide (templateIds s child).Nodup,
            decide (∀ o ∈ s.utxo.keys, o.txHash ∉ templateIds s child),
            diagnoseTipCandidate crypto .regtest Regtest.env { s with mempool := y.2 }
              (buildTemplate crypto .regtest Regtest.env aliceOnly { s with mempool := y.2 } aliceAddress)
              true))

theorem poolRun_of_pooledRun {child : Transaction} {report : TipReport}
    (h : pooledRun child = some ((true, true, true), (true, true, report))) :
    ∃ s, PoolRun child s ∧ diagnoseTipCandidate crypto .regtest Regtest.env s
      (buildTemplate crypto .regtest Regtest.env aliceOnly s aliceAddress) true = report := by
  obtain ⟨s, hafter, hrest⟩ := Option.bind_eq_some_iff.mp h
  obtain ⟨⟨v, pool⟩, hfirst, hlast⟩ := Option.bind_eq_some_iff.mp hrest
  obtain ⟨⟨v', pool'⟩, hsecond, heq⟩ := Option.map_eq_some_iff.mp hlast
  simp only [Prod.mk.injEq, decide_eq_true_eq] at heq
  obtain ⟨⟨hpass, hpass', hclock⟩, hnd, hnew, hreport⟩ := heq
  obtain ⟨t, hopen, hrun⟩ := Option.bind_eq_some_iff.mp hafter
  have hstart : Reachable crypto .regtest Regtest.H (Rules.fresh crypto .regtest Regtest.H) t :=
    .opened rfl canOpen_empty hopen
  have hreach := hstart.acceptAll (fun _ _ => trivial) (by decide) hrun
  refine ⟨{ s with mempool := pool' }, ⟨hreach.operated (.mempool pool'), ?_, ?_, ?_⟩, hreport⟩
  · have hempty : Mempool.Reachable crypto (.offered s.utxo (UInt32.ofNat s.bestHeight)
        {tx | tx ∈ [grantPayment, child]}) .empty := .start
    exact (hempty.add ⟨rfl, rfl⟩ hpass hfirst).add ⟨rfl, rfl⟩ hpass' hsecond
  · have hlist : insert (nextCoinbase crypto Regtest.env s aliceCanonical)
        {tx | tx ∈ [grantPayment, child]}
          = {tx | tx ∈ [nextCoinbase crypto Regtest.env s aliceCanonical, grantPayment, child]} := by
      ext tx
      simp
    have := distinctIds_of_list hnd hnew
    rw [← hlist] at this
    exact this
  · intro hdr hhdr
    have hhdr' : s.tipHeader = some hdr := hhdr
    rw [hhdr'] at hclock
    simpa using hclock

theorem canonicalize_aliceAddress : aliceOnly aliceAddress = some aliceCanonical := rfl

theorem minerScript_aliceAddress : minerScript aliceOnly aliceAddress = aliceCanonical := by
  decide

/-- A child with a lower fee rate than its parent. -/
theorem templates_valid_slowChild : ∃ s, PoolRun slowChild s ∧ Mineable crypto Regtest.env s aliceCanonical := by
  obtain ⟨s, hrun, hreport⟩ := poolRun_of_pooledRun
    (by decide +kernel : pooledRun slowChild = some ((true, true, true), (true, true,
      .validTipExtension)))
  have hids : ∀ script, aliceOnly aliceAddress = some script ∨
      minerScript aliceOnly aliceAddress = script → DistinctIds crypto s.utxo
        (insert (nextCoinbase crypto Regtest.env s script) {tx | tx ∈ [grantPayment, slowChild]}) := by
    rintro script (heq | heq)
    · rw [canonicalize_aliceAddress] at heq
      cases heq
      exact hrun.ids
    · rw [minerScript_aliceAddress] at heq
      cases heq
      exact hrun.ids
  have hiff := (Reachable.templates_valid Regtest.collisionFree hrun.reachable hrun.pool hids
    hrun.clock).2
  rw [minerScript_aliceAddress] at hiff
  exact ⟨s, hrun, hiff.mp hreport⟩

/-- A child with a higher fee rate than its parent comes first, and is refused. -/
theorem not_templates_valid_fastChild : ∃ s, PoolRun fastChild s ∧
    buildBlockTemplate crypto .regtest Regtest.env aliceOnly s aliceAddress
      = some (buildTemplate crypto .regtest Regtest.env aliceOnly s aliceAddress) ∧
    diagnoseTipCandidate crypto .regtest Regtest.env s
      (buildTemplate crypto .regtest Regtest.env aliceOnly s aliceAddress) true = .txApply 1 := by
  obtain ⟨s, hrun, hreport⟩ := poolRun_of_pooledRun
    (by decide +kernel : pooledRun fastChild = some ((true, true, true), (true, true,
      .txApply 1)))
  refine ⟨s, hrun, ?_, hreport⟩
  rw [buildBlockTemplate, canonicalize_aliceAddress, buildTemplate, minerScript_aliceAddress]
  rfl

end Blockchain

end Cryptex
