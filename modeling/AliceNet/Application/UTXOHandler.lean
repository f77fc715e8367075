import AliceNet.Application.Transactions
import AliceNet.Library.ReverseIndex

/-! The handler of unspent outputs. A database key is the tuple of its parts, which have fixed
lengths. -/

namespace AliceNet.Application

open BadgerTrie (Batch KV SMT DefaultLeaf)
open Consensus (Fault EpochLength)
open Outcome (require)

/-- By owner and value; the reference is the key itself. -/
abbrev ValueIndex := ReverseIndex (Owner × ℕ × Bytes32) Bytes32 Bytes32 (Owner × ℕ × Bytes32)

/-- By owner and index of the data store. -/
abbrev DataIndex := ReverseIndex (Owner × Bytes32) Bytes32 Bytes32 (Owner × Bytes32)

abbrev ExpSizeIndex := ReverseIndex (ℕ × ℕ × Bytes32) Unit Bytes32 (ℕ × ℕ)

namespace ValueIndex

def key (_ : Bytes32) (ref : Owner × ℕ × Bytes32) : Owner × ℕ × Bytes32 := ref

def entry (utxoID : Bytes32) (_ : Owner × ℕ × Bytes32) : Bytes32 := utxoID

def Add (index : ValueIndex) (utxoID : Bytes32) (owner : Owner) (value : ℕ) : ValueIndex :=
  index.put key entry utxoID (owner, value, utxoID)

def Drop (index : ValueIndex) (utxoID : Bytes32) : Except Fault ValueIndex :=
  index.drop key .keyNotFound utxoID

end ValueIndex

namespace DataIndex

def key (_ : Bytes32) (ref : Owner × Bytes32) : Owner × Bytes32 := ref

def entry (utxoID : Bytes32) (_ : Owner × Bytes32) : Bytes32 := utxoID

def Contains (index : DataIndex) (at_ : Owner × Bytes32) : Bool :=
  (index.table at_).isSome

def Add (index : DataIndex) (utxoID : Bytes32) (at_ : Owner × Bytes32) : Except Fault DataIndex :=
  match index.table at_ with
  | some _ => .error (.invalid "dataIndex.addInternalNoOverwrite; index conflict")
  | none => .ok (index.put key entry utxoID at_)

def Drop (index : DataIndex) (utxoID : Bytes32) : Except Fault DataIndex :=
  index.drop key .keyNotFound utxoID

end DataIndex

namespace ExpSizeIndex

def key (utxoID : Bytes32) (ref : ℕ × ℕ) : ℕ × ℕ × Bytes32 := (ref.1, ref.2, utxoID)

def entry (_ : Bytes32) (_ : ℕ × ℕ) : Unit := ()

def Add (index : ExpSizeIndex) (epoch : ℕ) (utxoID : Bytes32) (size : ℕ) : ExpSizeIndex :=
  index.put key entry utxoID (epoch, MaxUint32 - size)

def Drop (index : ExpSizeIndex) (utxoID : Bytes32) : Except Fault ExpSizeIndex :=
  index.drop key .keyNotFound utxoID

end ExpSizeIndex

/-- `hashed` records what was hashed. A root is `none` where the code has `nil`. -/
structure UTXOTrie where
  nodes : Bytes32 → Option Batch
  hashed : List Bytes
  currentStateRoot : Option (Option Bytes32)
  pendingStateRoot : Option (Option Bytes32)
  canonicalStateRoot : Option (Option Bytes32)

variable (env : Environment)

namespace UTXOTrie

def empty : UTXOTrie := ⟨fun _ => none, [[0]], none, none, none⟩

def getCurrentStateRoot (ut : UTXOTrie) : Option Bytes32 :=
  ut.currentStateRoot.getD (some 0)

/-- A root of zeros stands for the empty trie. -/
def getCurrentTrie (ut : UTXOTrie) : SMT :=
  ⟨⟨fun _ => none, ut.nodes, ut.hashed⟩, if ut.getCurrentStateRoot = some 0 then none else
    ut.getCurrentStateRoot, none⟩

def contains (ut : UTXOTrie) (utxoID : Bytes32) : Except Fault Bool := do
  let utxoHsh ← (ut.getCurrentTrie.Get utxoID).mapError ofTrie
  pure utxoHsh.isSome

/-- What a block changes: outputs and deposits come in, inputs go. -/
def batch (txs : List Tx) : Except Fault (List KV) := do
  let delkeys ← TxVec.consumedUTXOIDNoDeposits env txs
  let cc ← TxVec.generatedUTXOID env txs
  let dd ← TxVec.generatedPreHash env txs
  let ee ← TxVec.consumedUTXOIDOnlyDeposits env txs
  let ff ← TxVec.consumedPreHashOnlyDeposits env txs
  pure (List.zipWith KV.mk cc dd ++ List.zipWith KV.mk ee ff ++ delkeys.map fun key =>
    ⟨key, DefaultLeaf env.hash⟩)

def add (ut : UTXOTrie) (txs : List Tx) : Except Fault SMT := do
  let kvs ← batch env txs
  (ut.getCurrentTrie.Update env.hash (sortKVs kvs)).mapError ofTrie

def getStateRootForProposal (ut : UTXOTrie) (txs : List Tx) : Except Fault (Option Bytes32) :=
  if txs = [] then pure ut.getCurrentStateRoot else do
    let current ← ut.add env txs
    pure current.root

def setRoots (ut : UTXOTrie) (height : ℕ) (stateRoot : Option Bytes32) : Except Fault UTXOTrie :=
  let ut := { ut with currentStateRoot := some stateRoot }
  if height = 1 then
    pure { ut with pendingStateRoot := some stateRoot, canonicalStateRoot := some stateRoot }
  else if height % EpochLength = 0 then
    match ut.pendingStateRoot with
    | none => .error .keyNotFound
    | some cproot =>
      pure { ut with canonicalStateRoot := some cproot, pendingStateRoot := some stateRoot }
  else pure ut

def updateRoots (ut : UTXOTrie) (height : ℕ) (stateRoot : Option Bytes32) (current : SMT) :
    Except Fault UTXOTrie := do
  let ut ← ut.setRoots height stateRoot
  pure { ut with nodes := current.Commit.db.db, hashed := current.Commit.db.hashed }

def applyState (ut : UTXOTrie) (txs : List Tx) (height : ℕ) :
    Except Fault (Option Bytes32 × UTXOTrie) :=
  if txs = [] then do
    let ut' ← ut.updateRoots height ut.getCurrentStateRoot ut.getCurrentTrie
    pure (ut.getCurrentStateRoot, ut')
  else do
    let current ← ut.add env txs
    let ut' ← ut.updateRoots height current.root current
    pure (current.root, ut')

end UTXOTrie

structure State where
  trie : UTXOTrie
  utxos : Bytes32 → Option TXOut
  expIndex : ExpSizeIndex
  dataIndex : DataIndex
  valueIndex : ValueIndex

def State.empty : State := ⟨.empty, fun _ => none, .empty, .empty, .empty⟩

def TXOut.dataKey : TXOut → Option (Owner × Bytes32)
  | .dataStore ds => some (ds.dsPreImage.owner, ds.dsPreImage.index)
  | .valueStore _ => none

/-- The size of the encoding, which checks the deposit once more. -/
def TXOut.marshalBinary (utxo : TXOut) : Except Fault ℕ :=
  match utxo with
  | .dataStore ds => do
    ds.dsPreImage.validateDeposit
    pure (env.objSize utxo)
  | .valueStore _ => pure (env.objSize utxo)

namespace UTXOHandler

/-- The records that are there, and the ids of those that are not. -/
def get (s : State) (utxoIDs : List Bytes32) : List TXOut × List Bytes32 :=
  (utxoIDs.filterMap s.utxos, utxoIDs.filter fun utxoID => (s.utxos utxoID).isNone)

/-- The rules for one transaction of the block. -/
def isValidTx (s : State) (currentHeight : ℕ) (depositMap : Bytes32 → Option TXOut) (tx : Tx) :
    Except Fault Unit := do
  let consumedUTXOIDs ← TxVec.consumedUTXOIDNoDeposits env [tx]
  let (utxos, missing) := get s consumedUTXOIDs
  require (missing = []) (.invalid "utxoHandler.IsValid; missing consumed utxo")
  let onlyDeposits ← TxVec.consumedUTXOIDOnlyDeposits env [tx]
  let deposits ← onlyDeposits.mapM fun utxoID => match depositMap utxoID with
    | some deposit => pure deposit
    | none => .error (.invalid "utxoHandler.IsValid; missing consumed utxo (deposit)")
  tx.validateEqualVinVout currentHeight ((deposits ++ utxos).map some)
  let inputIndexes := utxos.filterMap TXOut.dataKey
  require (∀ key ∈ tx.vout.filterMap TXOut.dataKey, s.dataIndex.Contains key = true →
    key ∈ inputIndexes) (.invalid "utxoHandler.IsValid; duplicate datastore index")

def isValid (s : State) (txs : List Tx) (currentHeight : ℕ) (deposits : List TXOut) :
    Except Fault (List TXOut) := do
  let _ ← TxVec.validateDataStoreIndexes env txs []
  txs.forM (isValidTx env s currentHeight (TxVec.voutMap env deposits))
  let consumedDepositUTXOIDs ← TxVec.consumedUTXOIDOnlyDeposits env txs
  consumedDepositUTXOIDs.forM fun utxoID => do
    require ((← s.trie.contains utxoID) = false)
      (.invalid "utxoHandler.IsValid; double spend of deposit found in trie")
  let generatedUTXOIDs ← TxVec.generatedUTXOID env txs
  generatedUTXOIDs.forM fun utxoID => do
    require ((← s.trie.contains utxoID) = false)
      (.invalid "utxoHandler.IsValid; utxoID already in trie")
  let consumedUTXOIDs ← TxVec.consumedUTXOIDNoDeposits env txs
  consumedUTXOIDs.forM fun utxoID => do
    require ((← s.trie.contains utxoID) = true)
      (.invalid "utxoHandler.IsValid; consumed utxoID not in trie")
  let (utxos, missing) := get s consumedUTXOIDs
  require (missing = []) (.invalid "utxoHandler.IsValid; missing transactions")
  pure utxos

/-- Enter an output in the index or indexes of its kind. -/
def addToIndexes (s : State) (utxoID : Bytes32) : TXOut → Except Fault State
  | .dataStore ds => do
    let expEpoch ← ds.dsPreImage.epochOfExpiration
    let size ← (TXOut.dataStore ds).marshalBinary env
    let dataIndex ← s.dataIndex.Add utxoID (ds.dsPreImage.owner, ds.dsPreImage.index)
    pure { s with
      expIndex := s.expIndex.Add expEpoch utxoID (size % 2 ^ 32)
      dataIndex := dataIndex }
  | .valueStore vs => do
    let value ← vs.value
    pure { s with valueIndex := s.valueIndex.Add utxoID vs.vsPreImage.owner value }

def addOne (s : State) (utxo : TXOut) : Except Fault State := do
  require ((← s.trie.contains (utxo.utxoID env)) = false)
    (.invalid "utxoHandler.addOne; utxoID conflict")
  let s ← addToIndexes env s (utxo.utxoID env) utxo
  let _ ← utxo.marshalBinary env
  pure { s with utxos := Function.update s.utxos (utxo.utxoID env) (some utxo.stored) }

/-- The record stays. -/
def dropFromIndexes (s : State) (utxoID : Bytes32) : Except Fault State :=
  match s.utxos utxoID with
  | none => .error (.invalid "utxoHandler.dropFromIndexes; missing utxo for utxoID")
  | some (.dataStore _) => do
    let expIndex ← s.expIndex.Drop utxoID
    let dataIndex ← s.dataIndex.Drop utxoID
    pure { s with expIndex := expIndex, dataIndex := dataIndex }
  | some (.valueStore _) => do
    let valueIndex ← s.valueIndex.Drop utxoID
    pure { s with valueIndex := valueIndex }

def applyState (s : State) (txs : List Tx) (height : ℕ) : Except Fault (Option Bytes32 × State) :=
  if txs = [] then do
    let (hsh, trie) ← s.trie.applyState env txs height
    pure (hsh, { s with trie := trie })
  else do
    let consumedUTXOIDs ← TxVec.consumedUTXOIDNoDeposits env txs
    let s ← consumedUTXOIDs.foldlM dropFromIndexes s
    let s ← (TxVec.generatedUTXOs txs).foldlM (addOne env) s
    let (stateRoot, trie) ← s.trie.applyState env txs height
    pure (stateRoot, { s with trie := trie })

end UTXOHandler

end AliceNet.Application
