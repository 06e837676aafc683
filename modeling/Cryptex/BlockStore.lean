import Cryptex.Block
import Cryptex.Lib.FinMap

/-!
# Block files

`block_store.cpp`: one file per active height and one per block id. A file
is represented by the block it decodes to. Whether a write succeeds is
decided outside the program (`Writable`); a write that cannot open its file
leaves the file as it was.
-/

namespace Cryptex

/-- The files of a data directory. -/
inductive DataFile where
  | height (h : Nat)
  | byHash (id : Hash512)
  | index
  | headers
  | chainstate
  | localCheckpoint
  | manualCheckpoint
  | syncApproval
deriving DecidableEq

/-- Which files can be written. -/
abbrev Writable := DataFile → Bool

structure BlockStore where
  heightFiles : FinMap Nat Block
  hashFiles : FinMap Hash512 Block

namespace BlockStore

def empty : BlockStore := ⟨∅, ∅⟩

/-- `store`: the block file of a height, and whether the write succeeded. -/
def store (w : Writable) (st : BlockStore) (height : Nat) (blk : Block) : BlockStore × Bool :=
  if w (.height height) then ({ st with heightFiles := st.heightFiles.insert height blk }, true)
  else (st, false)

/-- `store_by_hash`: the block file of an id, and whether the write succeeded. -/
def storeByHash (w : Writable) (st : BlockStore) (id : Hash512) (blk : Block) :
    BlockStore × Bool :=
  if w (.byHash id) then ({ st with hashFiles := st.hashFiles.insert id blk }, true)
  else (st, false)

def load (st : BlockStore) (height : Nat) : Option Block := st.heightFiles.lookup height

def loadByHash (st : BlockStore) (id : Hash512) : Option Block := st.hashFiles.lookup id

def fileExists (st : BlockStore) (height : Nat) : Bool := (st.load height).isSome

def removeByHash (st : BlockStore) (id : Hash512) : BlockStore :=
  { st with hashFiles := st.hashFiles.erase id }

/-- The pruning loop: consecutive heights from the cursor on, as long as
their files exist; the fuel is the number of files. -/
def pruneFrom : Nat → Nat → FinMap Nat Block → FinMap Nat Block
  | 0, _, files => files
  | fuel + 1, cursor, files =>
      if (files.lookup cursor).isSome then pruneFrom fuel (cursor + 1) (files.erase cursor)
      else files

def pruneHeightFilesAfter (st : BlockStore) (height : Nat) : BlockStore :=
  { st with heightFiles := pruneFrom st.heightFiles.keys.card (height + 1) st.heightFiles }

/-! ## What the operations leave in the files -/

@[simp] theorem store_hashFiles (w : Writable) (st : BlockStore) (h : Nat) (b : Block) :
    (st.store w h b).1.hashFiles = st.hashFiles := by
  unfold store; split <;> rfl

@[simp] theorem storeByHash_heightFiles (w : Writable) (st : BlockStore) (id : Hash512)
    (b : Block) : (st.storeByHash w id b).1.heightFiles = st.heightFiles := by
  unfold storeByHash; split <;> rfl

@[simp] theorem removeByHash_heightFiles (st : BlockStore) (id : Hash512) :
    (st.removeByHash id).heightFiles = st.heightFiles := rfl

@[simp] theorem prune_hashFiles (st : BlockStore) (h : Nat) :
    (st.pruneHeightFilesAfter h).hashFiles = st.hashFiles := rfl

theorem pruneFrom_lookup_lt {h : Nat} : ∀ (fuel cursor : Nat) (files : FinMap Nat Block),
    h < cursor → (pruneFrom fuel cursor files).lookup h = files.lookup h
  | 0, _, _, _ => rfl
  | fuel + 1, cursor, files, hlt => by
      rw [pruneFrom]
      split
      · rw [pruneFrom_lookup_lt fuel (cursor + 1) _ (by omega),
          Finmap.lookup_erase_ne (by omega)]
      · rfl

/-- Pruning keeps the files up to its height. -/
theorem prune_load_le (st : BlockStore) {h height : Nat} (hle : h ≤ height) :
    (st.pruneHeightFilesAfter height).load h = st.load h :=
  pruneFrom_lookup_lt _ _ _ (by omega)

/-- Pruning only removes files. -/
theorem prune_load_sub (st : BlockStore) {h height : Nat} {b : Block}
    (hb : (st.pruneHeightFilesAfter height).load h = some b) : st.load h = some b := by
  have key : ∀ (fuel cursor : Nat) (files : FinMap Nat Block),
      (pruneFrom fuel cursor files).lookup h = some b → files.lookup h = some b := by
    intro fuel
    induction fuel with
    | zero => intro _ _ hf; exact hf
    | succ fuel ih =>
        intro cursor files hf
        rw [pruneFrom] at hf
        split at hf
        · have hf := ih _ _ hf
          rw [FinMap.lookup_erase_ite] at hf
          split at hf
          · cases hf
          · exact hf
        · exact hf
  exact key _ _ _ hb

end BlockStore

end Cryptex
