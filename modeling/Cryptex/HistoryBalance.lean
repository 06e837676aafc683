import Cryptex.WalletHistory
import Cryptex.WalletRescan

/-!
# Whether the history adds up

Transactions as transfers of coins (`CoinReplay`), the history as the sum of
what they show, and the balance as the worth of the UTXO map.
-/

namespace Cryptex

open CoinReplay Encoding

variable {c : Crypto} {p : ChainParams} {height : UInt32}

/-! ## Transactions as transfers -/

/-- The entries that outputs become, from output `i` on. -/
def outputEntries (txHash : Hash256) (height : UInt32) (isCoinbase : Bool) :
    Nat → List TxOut → List (OutPoint × UTXOEntry)
  | _, [] => []
  | i, out :: rest =>
      (⟨txHash, UInt32.ofNat i⟩, ⟨out, height, isCoinbase⟩) ::
        outputEntries txHash height isCoinbase (i + 1) rest

theorem insertOutputs_eq {txHash : Hash256} {cb : Bool} : ∀ (i : Nat) (outs : List TxOut) (map : UTXOSet),
    UTXOSet.insertOutputs txHash height cb i outs map
      = map.insertAll (outputEntries txHash height cb i outs)
  | _, [], _ => rfl
  | i, out :: rest, map => by
      rw [UTXOSet.insertOutputs, outputEntries, FinMap.insertAll_cons, insertOutputs_eq]

namespace Transaction

/-- A transaction at a height: a coinbase takes nothing out. -/
def transfer (c : Crypto) (height : UInt32) (tx : Transaction) : Transfer OutPoint UTXOEntry where
  listed := tx.inputs.toList.map TxIn.prevout
  removes := !tx.isCoinbase
  makes := outputEntries (tx.hash c) height tx.isCoinbase 0 tx.outputs.toList

variable {tx : Transaction} {map : UTXOSet}

theorem record_transfer (seen : UTXOSet) :
    (tx.transfer c height).record seen = UTXOSet.addOutputs c seen tx height :=
  (insertOutputs_eq 0 _ _).symm

theorem apply_transfer : (tx.transfer c height).apply map
    = UTXOSet.addOutputs c (if tx.isCoinbase then map else UTXOSet.eraseInputs map tx) tx height := by
  have hleft : (tx.transfer c height).left map
      = if tx.isCoinbase then map else UTXOSet.eraseInputs map tx := by
    rw [Transfer.left, UTXOSet.eraseInputs, transfer, eraseAll, List.foldl_map]
    cases tx.isCoinbase with
    | true => rfl
    | false => rfl
  rw [Transfer.apply, hleft, UTXOSet.addOutputs, insertOutputs_eq, transfer]

/-- A transaction that is applied finds its coins. -/
theorem applies_transfer (h : (UTXOSet.applyTransaction c map tx height).ok = true) :
    (tx.transfer c height).Applies map ∧
      (UTXOSet.applyTransaction c map tx height).map = (tx.transfer c height).apply map := by
  rw [apply_transfer]
  rcases UTXOSet.applyTransaction_ok h with ⟨hcb, -, hmap⟩ | ⟨hcb, _, hin, -, -, hmap⟩
  · refine ⟨fun hremoves => ?_, by rw [hmap, if_pos hcb]⟩
    rw [transfer, hcb] at hremoves
    cases hremoves
  · refine ⟨fun _ k hk => ?_, by rw [hmap, hcb, if_neg Bool.false_ne_true]⟩
    obtain ⟨txin, htxin, rfl⟩ := List.mem_map.mp hk
    exact (UTXOSet.checkInputs_some hin).1 txin htxin

end Transaction

theorem allApply_of_applyAll : ∀ {txs : List Transaction} {map map' : UTXOSet},
    UTXOSet.applyAll c height txs map = some map' →
      AllApply (txs.map (·.transfer c height)) map ∧
        CoinReplay.applyAll (txs.map (·.transfer c height)) map = map'
  | [], _, _, h => ⟨trivial, Option.some.inj h⟩
  | tx :: txs, map, map', h => by
      rw [UTXOSet.applyAll] at h
      split at h
      · next hok =>
          obtain ⟨happlies, hmap⟩ := tx.applies_transfer hok
          rw [hmap] at h
          obtain ⟨hrest, hlast⟩ := allApply_of_applyAll h
          exact ⟨⟨happlies, hrest⟩, hlast⟩
      · cases h

theorem allApply_of_applyTransactions : ∀ {txs : List Transaction} {i : Nat} {map map' : UTXOSet}
    {fees fees' : Int64}, applyTransactions c height i txs map fees = (map', .ok fees') →
      AllApply (txs.map (·.transfer c height)) map ∧
        CoinReplay.applyAll (txs.map (·.transfer c height)) map = map'
  | [], _, _, _, _, _, h => ⟨trivial, congrArg Prod.fst h⟩
  | tx :: txs, i, map, map', fees, fees', h => by
      rw [applyTransactions] at h
      split at h
      · next hok =>
          obtain ⟨happlies, hmap⟩ := tx.applies_transfer hok
          rw [hmap] at h
          obtain ⟨hrest, hlast⟩ := allApply_of_applyTransactions h
          exact ⟨⟨happlies, hrest⟩, hlast⟩
      · cases h

/-- The transfers of blocks from a height on. -/
def blockTransfers (c : Crypto) : Nat → List Block → List (Transfer OutPoint UTXOEntry)
  | _, [] => []
  | h, blk :: rest =>
      blk.transactions.toList.map (·.transfer c (UInt32.ofNat h)) ++ blockTransfers c (h + 1) rest

theorem blockTransfers_append : ∀ (xs ys : List Block) (h : Nat),
    blockTransfers c h (xs ++ ys) = blockTransfers c h xs ++ blockTransfers c (h + xs.length) ys
  | [], _, _ => rfl
  | x :: xs, ys, h => by
      rw [List.cons_append, blockTransfers, blockTransfers, blockTransfers_append xs ys,
        List.length_cons, List.append_assoc, show h + 1 + xs.length = h + (xs.length + 1) by omega]

/-- The transfers of an accepted chain find their coins, and lead to its map. -/
theorem Accepts.allApply {now : Nat} {skip : Bool} {hist : List BlockHeader} {map map' : UTXOSet}
    {blocks : List Block} (h : Accepts c p now skip hist map blocks map') :
    AllApply (blockTransfers c hist.length blocks) map ∧
      CoinReplay.applyAll (blockTransfers c hist.length blocks) map = map' := by
  induction h with
  | nil => exact ⟨trivial, rfl⟩
  | @cons hist map blk map₁ rest map' hv _ ih =>
      obtain ⟨-, totalFees, happ, -⟩ := validateBlock_none hv
      obtain ⟨hblock, hmap⟩ := allApply_of_applyTransactions happ
      rw [List.length_append, List.length_singleton] at ih
      rw [blockTransfers, allApply_append, applyAll_append, hmap]
      exact ⟨⟨hblock, ih.1⟩, ih.2⟩

/-! ## What the wallet owns -/

namespace HdWallet

variable {lib : KeyLib} {w : HdWallet} {chain : ChainReader} {pool : Mempool}

/-- The value of an output of the wallet, and nothing for the others. -/
def worth (lib : KeyLib) (w : HdWallet) (entry : UTXOEntry) : Int :=
  if w.owns lib entry then entry.output.value.toInt else 0

theorem Matched.ownedAddressSet (h : w.Matched lib) : w.ownedAddressSet lib = .ok w.addresses := by
  have hall : ∀ a ∈ w.addresses, ∃ pub, lib.keyAddress pub = a := fun a ha => h.exists_pub ha
  rw [HdWallet.ownedAddressSet]
  generalize w.addresses = addresses at hall
  induction addresses with
  | nil => rfl
  | cons a rest ih =>
      obtain ⟨pub, rfl⟩ := hall a List.mem_cons_self
      rw [List.mapM_cons, KeyLib.keyAddress, canonicalizeAddress_base64,
        ih fun a' ha' => hall a' (List.mem_cons_of_mem _ ha')]
      rfl

/-- The history and the balance agree on what is owned. -/
theorem Matched.isOwned_eq (h : w.Matched lib) (entry : UTXOEntry) :
    isOwned lib w.addresses entry.output.scriptPubKey.toList = w.owns lib entry := by
  rw [Bool.eq_iff_iff, owns, List.any_eq_true, isOwned]
  constructor
  · intro howned
    split at howned
    · cases howned
    · next canonical hcanonical =>
        have hmem := of_decide_eq_true howned
        obtain ⟨pub, rfl⟩ := h.exists_pub hmem
        exact ⟨_, hmem, addressesEqual_base64_iff.mpr hcanonical⟩
  · rintro ⟨a, ha, hequal⟩
    obtain ⟨pub, rfl⟩ := h.exists_pub ha
    have hcanonical := addressesEqual_base64_iff.mp hequal
    rw [hcanonical]
    exact decide_eq_true ha

/-! ## Sums in 64 bits -/

theorem sumValues_eq (outs : List TxOut) :
    sumValues outs = Int64.ofInt (outs.map fun out => out.value.toInt).sum := by
  have hfrom : ∀ (outs : List TxOut) (acc : Int64), outs.foldl (fun sum out => sum + out.value) acc
      = acc + Int64.ofInt (outs.map fun out => out.value.toInt).sum := by
    intro outs
    induction outs with
    | nil => exact fun acc => (Int64.add_zero acc).symm
    | cons out rest ih =>
        intro acc
        rw [List.foldl_cons, ih, List.map_cons, List.sum_cons, Int64.ofInt_add, Int64.ofInt_toInt,
          Int64.add_assoc]
  rw [sumValues, hfrom, Int64.zero_add]

theorem historyBalance_append (a b : List HistoryEntry) :
    historyBalance (a ++ b) = historyBalance a + historyBalance b := by
  have hfrom : ∀ (l : List HistoryEntry) (acc : Int64),
      l.foldl (fun balance entry => balance + entry.netSats) acc = acc + historyBalance l := by
    intro l
    induction l with
    | nil => exact fun acc => (Int64.add_zero acc).symm
    | cons e l ih =>
        intro acc
        have hcons : historyBalance (e :: l) = e.netSats + historyBalance l := by
          rw [← Int64.zero_add e.netSats]
          exact ih (0 + e.netSats)
        rw [List.foldl_cons, ih, hcons, Int64.add_assoc]
  rw [historyBalance, List.foldl_append, hfrom]
  rfl

theorem historyBalance_perm {a b : List HistoryEntry} (h : a.Perm b) :
    historyBalance a = historyBalance b :=
  h.foldl_eq' (fun x _ y _ balance => by
    rw [Int64.add_assoc, Int64.add_comm x.netSats, Int64.add_assoc]) 0

/-! ## One entry -/

theorem made_transfer (h : w.Matched lib) (tx : Transaction) :
    (tx.transfer c height).made (w.worth lib)
      = ((tx.outputs.toList.filter fun out => isOwned lib w.addresses out.scriptPubKey.toList).map
          fun out => out.value.toInt).sum := by
  have hfrom : ∀ (outs : List TxOut) (i : Nat),
      ((outputEntries (tx.hash c) height tx.isCoinbase i outs).map fun e => w.worth lib e.2).sum
        = ((outs.filter fun out => isOwned lib w.addresses out.scriptPubKey.toList).map
          fun out => out.value.toInt).sum := by
    intro outs
    induction outs with
    | nil => exact fun _ => rfl
    | cons out rest ih =>
        intro i
        have howned : isOwned lib w.addresses out.scriptPubKey.toList
            = w.owns lib ⟨out, height, tx.isCoinbase⟩ := h.isOwned_eq ⟨out, height, tx.isCoinbase⟩
        rw [outputEntries, List.map_cons, List.sum_cons, ih, List.filter_cons, howned, worth]
        cases w.owns lib ⟨out, height, tx.isCoinbase⟩ with
        | true =>
            rw [if_pos rfl, if_pos rfl, List.map_cons, List.sum_cons]
        | false =>
            rw [if_neg Bool.false_ne_true, if_neg Bool.false_ne_true, zero_add]
  exact hfrom _ 0

theorem worthOf_listed (h : w.Matched lib) (seen : UTXOSet) : ∀ ins : List TxIn,
    worthOf (w.worth lib) seen (ins.map TxIn.prevout)
      = (((ins.filterMap fun txin => (seen.lookup txin.prevout).map (·.output)).filter
          fun out => isOwned lib w.addresses out.scriptPubKey.toList).map
          fun out => out.value.toInt).sum
  | [] => rfl
  | txin :: rest => by
      have ih := worthOf_listed h seen rest
      rw [List.map_cons, worthOf_cons, ih, List.filterMap_cons]
      cases hlookup : seen.lookup txin.prevout with
      | none =>
          rw [worthAt, hlookup, Option.elim_none, zero_add]
          rfl
      | some entry =>
          rw [worthAt_of_lookup hlookup, Option.map_some]
          simp only [List.filter_cons, h.isOwned_eq, worth]
          cases w.owns lib entry with
          | true => rw [if_pos rfl, if_pos rfl, List.map_cons, List.sum_cons]
          | false => rw [if_neg Bool.false_ne_true, if_neg Bool.false_ne_true, zero_add]

/-- An entry shows the net of its transaction; one that is left out would show
nothing. -/
theorem historyBalance_makeEntry (h : w.Matched lib) (seen : UTXOSet) (bestHeight : UInt64)
    (blockHeight : Option UInt64) (timestamp : UInt64) (inMempool : Bool) (tx : Transaction) :
    historyBalance (makeEntry lib c w w.addresses bestHeight seen blockHeight timestamp inMempool
      tx).toList = Int64.ofInt ((tx.transfer c height).net (w.worth lib) seen) := by
  have hlisted : (tx.transfer c height).listed = tx.inputs.toList.map TxIn.prevout := rfl
  rw [Transfer.net, Int64.ofInt_sub, made_transfer h, hlisted, worthOf_listed h, ← sumValues_eq,
    ← sumValues_eq]
  unfold makeEntry
  simp only
  split
  · next hnone =>
      rw [hnone.1, hnone.2]
      rfl
  · exact Int64.zero_add _

/-! ## The replay -/

/-- The table and the sum after a list of transfers was visited. -/
structure Shows (lib : KeyLib) (w : HdWallet) (ts : List (Transfer OutPoint UTXOEntry))
    (s s' : Replayed) : Prop where
  seen : s'.seen = recordAll ts s.seen
  balance : historyBalance s'.entries
    = historyBalance s.entries + Int64.ofInt (nets (w.worth lib) ts s.seen)

theorem Shows.nil (s : Replayed) : Shows lib w [] s s := ⟨rfl, (Int64.add_zero _).symm⟩

theorem Shows.append {ts us : List (Transfer OutPoint UTXOEntry)} {s s' s'' : Replayed}
    (h : Shows lib w ts s s') (h' : Shows lib w us s' s'') : Shows lib w (ts ++ us) s s'' where
  seen := by rw [h'.seen, h.seen, recordAll_append]
  balance := by
    rw [h'.balance, h.balance, h.seen, nets_append_list, Int64.ofInt_add, Int64.add_assoc]

theorem shows_visit (h : w.Matched lib) (bestHeight : UInt64) (blockHeight : Option UInt64)
    (timestamp : UInt64) (inMempool : Bool) (s : Replayed) (tx : Transaction) :
    Shows lib w [tx.transfer c height] s
      (s.visit lib c w w.addresses bestHeight height blockHeight timestamp inMempool tx) where
  seen := (tx.record_transfer s.seen).symm
  balance := by
    rw [Replayed.visit, historyBalance_append, historyBalance_makeEntry h, nets, nets, add_zero]

theorem shows_foldl (h : w.Matched lib) (bestHeight : UInt64) (blockHeight : Option UInt64)
    (timestamp : UInt64) (inMempool : Bool) : ∀ (txs : List Transaction) (s : Replayed),
    Shows lib w (txs.map (·.transfer c height)) s
      (txs.foldl (Replayed.visit lib c w w.addresses bestHeight height blockHeight timestamp
        inMempool) s)
  | [], s => .nil s
  | tx :: txs, s => by
      rw [List.map_cons, List.foldl_cons, ← List.singleton_append]
      exact (shows_visit h bestHeight blockHeight timestamp inMempool s tx).append
        (shows_foldl h bestHeight blockHeight timestamp inMempool txs _)

theorem shows_visitHeights (h : w.Matched lib) (s : Replayed) : ∀ n ≤ chain.blocks.length,
    Shows lib w (blockTransfers c 0 (chain.blocks.take n)) s
      ((List.range n).foldl (Replayed.visitHeight lib c w w.addresses chain) s)
  | 0, _ => .nil s
  | n + 1, hn => by
      have hblk : chain.blocks[n]? = some chain.blocks[n] := List.getElem?_eq_getElem hn
      have ih := shows_visitHeights h s n (Nat.le_of_succ_le hn)
      rw [List.range_succ, List.foldl_append, List.take_add_one, hblk, blockTransfers_append]
      refine ih.append ?_
      rw [List.length_take, Nat.min_eq_left (Nat.le_of_succ_le hn), Nat.zero_add, Option.toList_some,
        blockTransfers, blockTransfers, List.append_nil, List.foldl_cons, List.foldl_nil,
        Replayed.visitHeight, hblk]
      exact shows_foldl h _ _ _ _ _ _

/-- The transfers of a chain. -/
def chainTransfers (c : Crypto) (chain : ChainReader) : List (Transfer OutPoint UTXOEntry) :=
  blockTransfers c 0 chain.blocks

/-- The transfers of transactions of the pool. -/
def poolTransfers (c : Crypto) (chain : ChainReader) (txs : List Transaction) :
    List (Transfer OutPoint UTXOEntry) := txs.map (·.transfer c chain.nextHeight)

theorem shows_chain (h : w.Matched lib)
    (hheight : chain.blocks.length = chain.bestHeight.toNat + 1) :
    Shows lib w (chainTransfers c chain) ⟨∅, []⟩ ((List.range (chain.bestHeight.toNat + 1)).foldl
      (Replayed.visitHeight lib c w w.addresses chain) ⟨∅, []⟩) := by
  have hshows : Shows lib w (blockTransfers c 0 (chain.blocks.take chain.blocks.length)) ⟨∅, []⟩ _ :=
    shows_visitHeights h ⟨∅, []⟩ chain.blocks.length (Nat.le_refl _)
  rwa [List.take_length, hheight] at hshows

/-- The history of the chain sums up what its transfers show. -/
theorem historyEntries_chain (h : w.Matched lib)
    (hheight : chain.blocks.length = chain.bestHeight.toNat + 1) (now : UInt64) :
    (w.historyEntries lib c chain pool false now).map historyBalance
      = .ok (Int64.ofInt (nets (w.worth lib) (chainTransfers c chain) ∅)) := by
  rw [historyEntries, h.ownedAddressSet]
  simp only [Bool.false_eq_true, if_false, Except.map]
  rw [historyBalance_perm (List.mergeSort_perm _ _), (shows_chain h hheight).balance]
  exact congrArg Except.ok (Int64.zero_add _)

/-- The history with the pool sums up its transfers as well, in the order of
`get_transactions`. -/
theorem historyEntries_pool (h : w.Matched lib)
    (hheight : chain.blocks.length = chain.bestHeight.toNat + 1) (now : UInt64) :
    (w.historyEntries lib c chain pool true now).map historyBalance
      = .ok (Int64.ofInt (nets (w.worth lib)
          (chainTransfers c chain ++ poolTransfers c chain pool.getTransactions) ∅)) := by
  have hpool : ∀ s : Replayed, Shows lib w (poolTransfers c chain pool.getTransactions) s
      (pool.getTransactions.foldl
        (Replayed.visit lib c w w.addresses chain.bestHeight chain.nextHeight none now true) s) :=
    shows_foldl h chain.bestHeight none now true pool.getTransactions
  rw [historyEntries, h.ownedAddressSet]
  simp only [if_true, Except.map]
  rw [historyBalance_perm (List.mergeSort_perm _ _), ((shows_chain h hheight).append (hpool _)).balance]
  exact congrArg Except.ok (Int64.zero_add _)

/-! ## The balance -/

theorem total_count (height : UInt32) (summary : BalanceSummary) (entry : UTXOEntry) :
    (summary.count height entry).total = summary.total + entry.output.value := by
  rw [BalanceSummary.count]
  split
  · exact (Int64.add_assoc _ _ _).symm
  · split
    · rw [BalanceSummary.total, BalanceSummary.total]
      simp only
      rw [← Int64.add_assoc, Int64.add_assoc, Int64.add_comm entry.output.value, ← Int64.add_assoc]
    · rw [BalanceSummary.total, BalanceSummary.total]
      simp only
      rw [Int64.add_assoc summary.spendable, Int64.add_comm entry.output.value, ← Int64.add_assoc,
        Int64.add_assoc _ entry.output.value, Int64.add_comm entry.output.value, ← Int64.add_assoc]

theorem total_summarize (chain : ChainReader) (coins : List (OutPoint × UTXOEntry)) :
    (summarize chain coins).total
      = Int64.ofInt (coins.map fun u => u.2.output.value.toInt).sum := by
  have hfrom : ∀ (coins : List (OutPoint × UTXOEntry)) (summary : BalanceSummary),
      (coins.foldl (fun summary u => summary.count chain.bestHeight.toUInt32 u.2) summary).total
        = summary.total + Int64.ofInt (coins.map fun u => u.2.output.value.toInt).sum := by
    intro coins
    induction coins with
    | nil => exact fun summary => (Int64.add_zero _).symm
    | cons u rest ih =>
        intro summary
        rw [List.foldl_cons, ih, total_count, List.map_cons, List.sum_cons, Int64.ofInt_add,
          Int64.ofInt_toInt, Int64.add_assoc]
  rw [summarize, hfrom]
  exact Int64.zero_add _

/-- The balance is the worth of the UTXO map. -/
theorem total_balanceSummary (h : w.Matched lib) (hnd : w.addresses.Nodup) (chain : ChainReader) :
    (w.balanceSummary lib chain).total = Int64.ofInt (FinMap.sumBy (w.worth lib) chain.utxo) := by
  have hfilter : ∀ l : List (OutPoint × UTXOEntry),
      ((l.filter fun u => w.owns lib u.2).map fun u => u.2.output.value.toInt).sum
        = (l.map fun u => w.worth lib u.2).sum := by
    intro l
    induction l with
    | nil => rfl
    | cons u l ih =>
        rw [List.filter_cons, List.map_cons, List.sum_cons, ← ih, worth]
        cases w.owns lib u.2 with
        | true => rw [if_pos rfl, if_pos rfl, List.map_cons, List.sum_cons]
        | false => rw [if_neg Bool.false_ne_true, if_neg Bool.false_ne_true, zero_add]
  have hcoins : w.ownCoins lib chain true
      = (chain.order.visit chain.utxo).filter fun u => w.owns lib u.2 := by
    rw [ownCoins]
    simp only [Bool.true_or, Bool.and_true]
  rw [balanceSummary, summarize_perm (listForAddress_perm h hnd chain true), total_summarize, hcoins,
    hfilter, ← sumBy_visit]

/-! ## Ids -/

/-- Different transactions have different ids. -/
def UniqueIds (c : Crypto) (txs : List Transaction) : Prop :=
  ∀ tx ∈ txs, ∀ tx' ∈ txs, tx.hash c = tx'.hash c → tx = tx'

/-- The transactions of a chain. -/
def chainTransactions (chain : ChainReader) : List Transaction :=
  chain.blocks.flatMap fun blk => blk.transactions.toList

theorem mem_blockTransfers {t : Transfer OutPoint UTXOEntry} : ∀ {blocks : List Block} {h : Nat},
    t ∈ blockTransfers c h blocks → ∃ tx ∈ blocks.flatMap fun blk => blk.transactions.toList,
      ∃ h', t = tx.transfer c h'
  | [], _, ht => by cases ht
  | blk :: rest, h, ht => by
      rw [blockTransfers, List.mem_append] at ht
      rw [List.flatMap_cons]
      rcases ht with hblk | hrest
      · obtain ⟨tx, htx, rfl⟩ := List.mem_map.mp hblk
        exact ⟨tx, List.mem_append_left _ htx, _, rfl⟩
      · obtain ⟨tx, htx, h', rfl⟩ := mem_blockTransfers hrest
        exact ⟨tx, List.mem_append_right _ htx, h', rfl⟩

theorem txHash_of_coin {tx : Transaction} {o : OutPoint} {entry : UTXOEntry}
    (h : (tx.transfer c height).coin o = some entry) : o.txHash = tx.hash c := by
  have hkeys : ∀ (outs : List TxOut) (i : Nat), ∀ e ∈ outputEntries (tx.hash c) height tx.isCoinbase i outs,
      e.1.txHash = tx.hash c := by
    intro outs
    induction outs with
    | nil => exact fun _ _ he => absurd he List.not_mem_nil
    | cons out rest ih =>
        intro i e he
        rcases List.mem_cons.mp he with rfl | hmem
        · rfl
        · exact ih (i + 1) e hmem
  rcases FinMap.mem_of_lookup_insertAll h with hmem | hempty
  · exact hkeys _ 0 _ hmem
  · rw [Finmap.lookup_empty] at hempty
    cases hempty

/-- The output at an outpoint of a transaction, at whatever height it is. -/
theorem output_of_coin {tx : Transaction} {height' : UInt32} {o : OutPoint} {entry entry' : UTXOEntry}
    (h : (tx.transfer c height).coin o = some entry)
    (h' : (tx.transfer c height').coin o = some entry') : entry.output = entry'.output := by
  have hsame : ∀ (outs : List TxOut) (i : Nat) (m m' : UTXOSet),
      (m.lookup o).map (·.output) = (m'.lookup o).map (·.output) →
        ((m.insertAll (outputEntries (tx.hash c) height tx.isCoinbase i outs)).lookup o).map
            (·.output)
          = ((m'.insertAll (outputEntries (tx.hash c) height' tx.isCoinbase i outs)).lookup o).map
            (·.output) := by
    intro outs
    induction outs with
    | nil => exact fun _ _ _ hm => hm
    | cons out rest ih =>
        intro i m m' hm
        rw [outputEntries, outputEntries, FinMap.insertAll_cons, FinMap.insertAll_cons]
        refine ih (i + 1) _ _ ?_
        rw [FinMap.lookup_insert_ite, FinMap.lookup_insert_ite]
        split
        · rfl
        · exact hm
  have hboth := hsame tx.outputs.toList 0 ∅ ∅ rfl
  change ((tx.transfer c height).coin o).map (·.output)
    = ((tx.transfer c height').coin o).map (·.output) at hboth
  rw [h, h', Option.map_some, Option.map_some] at hboth
  exact Option.some.inj hboth

theorem worth_congr {entry entry' : UTXOEntry} (h : entry.output = entry'.output) :
    w.worth lib entry = w.worth lib entry' := by
  rw [worth, worth, owns, owns, h]

/-- Unique ids give every outpoint one worth. -/
theorem oneWorth_of_uniqueIds {txs : List Transaction}
    (hids : UniqueIds c (chainTransactions chain ++ txs)) :
    OneWorth (w.worth lib) (chainTransfers c chain ++ poolTransfers c chain txs) := by
  have hfrom : ∀ t ∈ chainTransfers c chain ++ poolTransfers c chain txs,
      ∃ tx ∈ chainTransactions chain ++ txs, ∃ h, t = tx.transfer c h := by
    intro t ht
    rcases List.mem_append.mp ht with hchain | hpool
    · obtain ⟨tx, htx, h, heq⟩ := mem_blockTransfers hchain
      exact ⟨tx, List.mem_append_left _ htx, h, heq⟩
    · obtain ⟨tx, htx, rfl⟩ := List.mem_map.mp hpool
      exact ⟨tx, List.mem_append_right _ htx, _, rfl⟩
  intro t ht t' ht' o v v' hv hv'
  obtain ⟨tx, htx, h, rfl⟩ := hfrom t ht
  obtain ⟨tx', htx', h', rfl⟩ := hfrom t' ht'
  obtain rfl := hids tx htx tx' htx' ((txHash_of_coin hv).symm.trans (txHash_of_coin hv'))
  exact worth_congr (output_of_coin hv hv')

/-! ## When it adds up -/

/-- The worth of the wallet's unspent outputs that the chain makes again. -/
def replacedWorth (lib : KeyLib) (c : Crypto) (w : HdWallet) (chain : ChainReader) : Int :=
  replacements (w.worth lib) (chainTransfers c chain) ∅

/-- The worth of what the chain lists again in one transaction, or in a
coinbase. -/
def idleWorth (lib : KeyLib) (c : Crypto) (w : HdWallet) (chain : ChainReader) : Int :=
  idles (w.worth lib) (chainTransfers c chain) ∅

/-- The worth of the unspent outputs that the pool makes again. -/
def replacedByPool (lib : KeyLib) (c : Crypto) (w : HdWallet) (chain : ChainReader)
    (order : List Transaction) : Int :=
  replacements (w.worth lib) (poolTransfers c chain order) chain.utxo

/-- All outputs of the chain and of the pool. -/
def allOutputs (c : Crypto) (chain : ChainReader) (txs : List Transaction) : UTXOSet :=
  recordAll (chainTransfers c chain ++ poolTransfers c chain txs) ∅

/-- The worth of what the pool lists again in one transaction. -/
def idleInPool (lib : KeyLib) (c : Crypto) (w : HdWallet) (chain : ChainReader)
    (txs : List Transaction) : Int :=
  ((poolTransfers c chain txs).map fun t => worthOf (w.worth lib) (allOutputs c chain txs) t.idle).sum

/-- The worth of the pool inputs that spend no output of the chain and none of
a pool transaction before them. -/
def lateInPool (lib : KeyLib) (c : Crypto) (w : HdWallet) (chain : ChainReader)
    (txs : List Transaction) : Int :=
  lates (w.worth lib) (allOutputs c chain txs) (poolTransfers c chain txs)
    (recordAll (chainTransfers c chain) ∅)

theorem ofInt_add_sub_eq_iff (a b d : Int) :
    Int64.ofInt (a + b - d) = Int64.ofInt a ↔ Int64.ofInt b = Int64.ofInt d := by
  rw [Int64.ofInt_sub, Int64.ofInt_add]
  grind

theorem nets_chain {now : Nat} {skip : Bool}
    (hacc : Accepts c p now skip [] ∅ chain.blocks chain.utxo) :
    nets (w.worth lib) (chainTransfers c chain) ∅
      = FinMap.sumBy (w.worth lib) chain.utxo + w.replacedWorth lib c chain
        - w.idleWorth lib c chain := by
  obtain ⟨happly, hutxo⟩ := hacc.allApply
  have hchain : nets (w.worth lib) (blockTransfers c 0 chain.blocks) ∅
      = FinMap.sumBy (w.worth lib) (CoinReplay.applyAll (blockTransfers c 0 chain.blocks) ∅)
        - FinMap.sumBy (w.worth lib) ∅
        + replacements (w.worth lib) (blockTransfers c 0 chain.blocks) ∅
        - idles (w.worth lib) (blockTransfers c 0 chain.blocks) ∅ := nets_eq (fun _ _ h => h) happly
  rw [List.length_nil] at hutxo
  rw [hutxo, FinMap.sumBy_empty, sub_zero] at hchain
  exact hchain

theorem nets_pool {now : Nat} {skip : Bool}
    (hacc : Accepts c p now skip [] ∅ chain.blocks chain.utxo) {txs order : List Transaction}
    (hids : UniqueIds c (chainTransactions chain ++ txs)) (hperm : order.Perm txs) {map : UTXOSet}
    (horder : UTXOSet.applyAll c chain.nextHeight order chain.utxo = some map) :
    nets (w.worth lib) (chainTransfers c chain ++ poolTransfers c chain txs) ∅
      = FinMap.sumBy (w.worth lib) map
        + (w.replacedWorth lib c chain + w.replacedByPool lib c chain order
          + w.lateInPool lib c chain txs)
        - (w.idleWorth lib c chain + w.idleInPool lib c chain txs) := by
  obtain ⟨happly, hutxo⟩ := hacc.allApply
  have hchain : CoinReplay.applyAll (chainTransfers c chain) ∅ = chain.utxo := hutxo
  obtain ⟨happly', hmap⟩ := allApply_of_applyAll horder
  rw [← hchain] at happly' hmap
  have hworth : OneWorth (w.worth lib) (chainTransfers c chain ++ poolTransfers c chain txs) :=
    oneWorth_of_uniqueIds hids
  rw [nets_append hworth happly (hperm.map _) happly', hmap, hchain]
  rfl

/-- The history adds up to the balance exactly when, in 64 bits, as much of the
wallet is replaced as is listed without effect; and with the pool to the
balance after its transactions, in any order in which they apply, exactly when
what is replaced, with what the pool lists before it is made, is as much as
what is listed without effect. -/
theorem history_adds_up_iff {now : Nat} {skip : Bool}
    (hacc : Accepts c p now skip [] ∅ chain.blocks chain.utxo)
    (hheight : chain.blocks.length = chain.bestHeight.toNat + 1) (hmatched : w.Matched lib)
    (hnd : w.addresses.Nodup) (pool : Mempool) (time : UInt64) :
    ((w.historyEntries lib c chain pool false time).map historyBalance
        = .ok (w.balanceSummary lib chain).total ↔
      Int64.ofInt (w.replacedWorth lib c chain) = Int64.ofInt (w.idleWorth lib c chain)) ∧
    ∀ (order : List Transaction) (map : UTXOSet),
      UniqueIds c (chainTransactions chain ++ pool.getTransactions) →
      order.Perm pool.getTransactions →
      UTXOSet.applyAll c chain.nextHeight order chain.utxo = some map →
      ((w.historyEntries lib c chain pool true time).map historyBalance
          = .ok (w.balanceSummary lib { chain with utxo := map }).total ↔
        Int64.ofInt (w.replacedWorth lib c chain + w.replacedByPool lib c chain order
            + w.lateInPool lib c chain pool.getTransactions)
          = Int64.ofInt (w.idleWorth lib c chain
            + w.idleInPool lib c chain pool.getTransactions)) := by
  constructor
  · rw [historyEntries_chain hmatched hheight, total_balanceSummary hmatched hnd, Except.ok.injEq,
      nets_chain hacc, ofInt_add_sub_eq_iff]
  · intro order map hids hperm horder
    rw [historyEntries_pool hmatched hheight, total_balanceSummary hmatched hnd, Except.ok.injEq,
      nets_pool hacc hids hperm horder, ofInt_add_sub_eq_iff]

/-! ## The same coinbase twice -/

/-- All hashes are zero. -/
def zeroCrypto : Crypto where
  sha3_512 _ := 0
  verifySignature _ _ _ := false
  pubkeyToAddress _ := []
  addressesEqual _ _ := false

/-- A coinbase for the first address of the sample seed. -/
def sampleCoinbase : Transaction where
  version := 1
  inputs := (Block.genesisCoinbase .regtest).inputs
  outputs := ⟨[⟨1, sampleAddress 0⟩], by simp⟩
  lockTime := 0

/-- A block with that coinbase. -/
def sampleBlock (timestamp : UInt32) : Block where
  header :=
    { merkleRoot := Block.computeMerkleRoot zeroCrypto [sampleCoinbase]
      timestamp := timestamp
      bits := ChainParams.regtest.powLimitBits }
  transactions := ⟨[sampleCoinbase], by simp⟩

/-- The entry of its output. -/
def sampleEntry (height : UInt32) : UTXOEntry := ⟨⟨1, sampleAddress 0⟩, height, true⟩

theorem isCoinbase_sampleCoinbase : sampleCoinbase.isCoinbase = true := by decide

theorem hash_sampleCoinbase : sampleCoinbase.hash zeroCrypto = 0 := Hash512.first_zero

theorem addOutputs_sampleCoinbase (map : UTXOSet) :
    UTXOSet.addOutputs zeroCrypto map sampleCoinbase height = map.insert ⟨0, 0⟩ (sampleEntry height) := by
  rw [UTXOSet.addOutputs, isCoinbase_sampleCoinbase, hash_sampleCoinbase]
  rfl

/-- A block with a good header is accepted. -/
theorem validateBlock_sample {hist : List BlockHeader} {map : UTXOSet} {timestamp : UInt32}
    (hheader : checkHeaderOnPath zeroCrypto .regtest 2 true hist (sampleBlock timestamp) = none)
    (hreward : ¬ (1 : Int64) > getBlockReward hist.length + 0) :
    validateBlock zeroCrypto .regtest 2 true hist map (sampleBlock timestamp)
      = (map.insert ⟨0, 0⟩ (sampleEntry (UInt32.ofNat hist.length)), none) := by
  have happly : applyTransactions zeroCrypto (UInt32.ofNat hist.length) 0
      (sampleBlock timestamp).transactions.toList map 0
        = (map.insert ⟨0, 0⟩ (sampleEntry (UInt32.ofNat hist.length)), .ok 0) := by
    rw [← addOutputs_sampleCoinbase]
    change applyTransactions zeroCrypto (UInt32.ofNat hist.length) 0 [sampleCoinbase] map 0 = _
    simp only [applyTransactions, UTXOSet.applyTransaction, isCoinbase_sampleCoinbase, if_true]
  have hout : coinbaseOut (sampleBlock timestamp) = 1 := rfl
  rw [validateBlock, hheader, happly]
  simp only
  rw [hout, if_neg hreward]

/-- A chain of one block with that coinbase. -/
def onceChain : ChainReader where
  approved := true
  bestHeight := 0
  utxo := (∅ : UTXOSet).insert ⟨0, 0⟩ (sampleEntry 0)
  order := Chainstate.outpointOrder
  blocks := [sampleBlock 1]

/-- A chain of two blocks with that coinbase. -/
def twiceChain : ChainReader where
  approved := true
  bestHeight := 1
  utxo := ((∅ : UTXOSet).insert ⟨0, 0⟩ (sampleEntry 0)).insert ⟨0, 0⟩ (sampleEntry 1)
  order := Chainstate.outpointOrder
  blocks := [sampleBlock 1, sampleBlock 2]

theorem accepts_once :
    Accepts zeroCrypto .regtest 2 true [] ∅ onceChain.blocks onceChain.utxo :=
  .cons (validateBlock_sample (by decide +kernel) (by decide +kernel)) .nil

theorem accepts_twice :
    Accepts zeroCrypto .regtest 2 true [] ∅ twiceChain.blocks twiceChain.utxo :=
  .cons (validateBlock_sample (by decide +kernel) (by decide +kernel))
    (.cons (validateBlock_sample (by decide +kernel) (by decide +kernel)) .nil)

theorem worth_sampleEntry {w : HdWallet} (h : w.addresses = [(sampleAddress 0).toList]) :
    w.worth sampleLib (sampleEntry height) = 1 := by
  have howns : w.owns sampleLib (sampleEntry height) = true := by
    rw [owns, h, List.any_cons, List.any_nil, Bool.or_false, sampleAddress_toList, KeyLib.keyAddress,
      addressesEqual_base64_iff]
    change canonicalizeAddress _ (sampleAddress 0).toList = _
    rw [sampleAddress_toList, KeyLib.keyAddress, canonicalizeAddress_base64]
  rw [worth, if_pos howns]
  rfl

/-- The transfer of that coinbase makes one coin and takes nothing out. -/
theorem transfer_sampleCoinbase : sampleCoinbase.transfer zeroCrypto height
    = ⟨[⟨0, 0xFFFFFFFF⟩], false, [(⟨0, 0⟩, sampleEntry height)]⟩ := by
  rw [Transaction.transfer, hash_sampleCoinbase, isCoinbase_sampleCoinbase]
  rfl

theorem chainTransfers_once : chainTransfers zeroCrypto onceChain
    = [sampleCoinbase.transfer zeroCrypto 0] := rfl

theorem chainTransfers_twice : chainTransfers zeroCrypto twiceChain
    = [sampleCoinbase.transfer zeroCrypto 0, sampleCoinbase.transfer zeroCrypto 1] := rfl

/-- The input of a coinbase leads to nothing. -/
theorem worthOf_null {worth : UTXOEntry → Int} {m : UTXOSet}
    (h : m.lookup ⟨0, 0xFFFFFFFF⟩ = none) : worthOf worth m [⟨0, 0xFFFFFFFF⟩] = 0 := by
  rw [worthOf_cons, worthAt, h]
  rfl

theorem lookup_null (m : UTXOSet) (entry : UTXOEntry) :
    (m.insert ⟨0, 0⟩ entry).lookup ⟨0, 0xFFFFFFFF⟩ = m.lookup ⟨0, 0xFFFFFFFF⟩ :=
  Finmap.lookup_insert_of_ne _ (by decide)

/-- The second coinbase takes the place of the first, but both are shown. -/
theorem not_history_adds_up : ¬ ∀ (lib : KeyLib) (c : Crypto) (p : ChainParams) (now : Nat)
    (skip : Bool) (chain : ChainReader) (w : HdWallet) (pool : Mempool) (time : UInt64),
      Accepts c p now skip [] ∅ chain.blocks chain.utxo →
      chain.blocks.length = chain.bestHeight.toNat + 1 → w.Matched lib → w.addresses.Nodup →
        (w.historyEntries lib c chain pool false time).map historyBalance
          = .ok (w.balanceSummary lib chain).total := by
  intro hall
  obtain ⟨w, -, hfresh, haddresses⟩ := exists_sampleWallet
  have hnd : w.addresses.Nodup := by
    rw [haddresses]
    exact List.nodup_singleton _
  have hworth : ∀ h, w.worth sampleLib (sampleEntry h) = 1 := fun h =>
    worth_sampleEntry (by rw [haddresses, sampleAddress_toList, Nat.add_zero])
  have hbalance := hall sampleLib zeroCrypto .regtest 2 true twiceChain w Mempool.empty 0
    accepts_twice rfl hfresh.matched hnd
  have hreplaced : w.replacedWorth sampleLib zeroCrypto twiceChain = 1 := by
    rw [replacedWorth, chainTransfers_twice, transfer_sampleCoinbase, transfer_sampleCoinbase]
    simp only [replacements, replacement, Transfer.left, Transfer.apply, FinMap.insertAll_cons,
      FinMap.insertAll_nil]
    simp [worthAt, hworth]
  have hidle : w.idleWorth sampleLib zeroCrypto twiceChain = 0 := by
    rw [idleWorth, chainTransfers_twice, transfer_sampleCoinbase, transfer_sampleCoinbase]
    simp only [idles, Transfer.idle, Transfer.record, FinMap.insertAll_cons, FinMap.insertAll_nil,
      Bool.false_eq_true, if_false]
    rw [worthOf_null (Finmap.lookup_empty _), worthOf_null (by rw [lookup_null, Finmap.lookup_empty])]
    rfl
  rw [historyEntries_chain hfresh.matched rfl, total_balanceSummary hfresh.matched hnd,
    Except.ok.injEq, nets_chain accepts_twice, ofInt_add_sub_eq_iff, hreplaced, hidle] at hbalance
  exact absurd hbalance (by decide)

/-- A chain with one block, without and with an empty pool. -/
theorem history_adds_up_once : ∃ w : HdWallet, w.Matched sampleLib ∧
    (w.historyEntries sampleLib zeroCrypto onceChain Mempool.empty false 0).map historyBalance
      = .ok (w.balanceSummary sampleLib onceChain).total ∧
    (w.historyEntries sampleLib zeroCrypto onceChain Mempool.empty true 0).map historyBalance
      = .ok (w.balanceSummary sampleLib onceChain).total := by
  obtain ⟨w, -, hfresh, haddresses⟩ := exists_sampleWallet
  have hnd : w.addresses.Nodup := by
    rw [haddresses]
    exact List.nodup_singleton _
  have hreplaced : w.replacedWorth sampleLib zeroCrypto onceChain = 0 := by
    rw [replacedWorth, chainTransfers_once, transfer_sampleCoinbase]
    simp [replacements, replacement, Transfer.left, worthAt]
  have hidle : w.idleWorth sampleLib zeroCrypto onceChain = 0 := by
    rw [idleWorth, chainTransfers_once, transfer_sampleCoinbase]
    simp only [idles, Transfer.idle, Bool.false_eq_true, if_false]
    rw [worthOf_null (Finmap.lookup_empty _)]
    rfl
  obtain ⟨hchain, hpool⟩ :=
    history_adds_up_iff accepts_once rfl hfresh.matched hnd Mempool.empty 0
  have hids : UniqueIds zeroCrypto (chainTransactions onceChain ++ Mempool.empty.getTransactions) := by
    intro tx htx tx' htx' _
    rw [List.mem_singleton.mp htx, List.mem_singleton.mp htx']
  refine ⟨w, hfresh.matched, hchain.mpr ?_, (hpool [] _ hids (List.Perm.refl _) rfl).mpr ?_⟩
  · rw [hreplaced, hidle]
  · rw [hreplaced, hidle]
    rfl

end HdWallet

end Cryptex
