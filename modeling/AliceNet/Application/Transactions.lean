import AliceNet.Application.Objects

/-! Transactions and lists of them. Calls that change the transaction return it as they leave it. -/

namespace AliceNet.Application

open BadgerTrie (KV SMT)
open Consensus (Fault EpochLength epochOf)
open Outcome (require)

structure Tx where
  vin : List TXIn
  vout : List TXOut
  fee : ℕ
  txHash : Option Bytes32
  vin_length : vin.length ≤ MaxTxVectorLength
  vout_length : vout.length ≤ MaxTxVectorLength

def ofTrie : BadgerTrie.Error → Fault
  | .new text => .other text
  | .unavailable _ => .other "the trie node is unavailable in the disk db, db may be corrupted"
  | .panic => .other "panic"

def sortKVs (kvs : List KV) : List KV :=
  kvs.insertionSort fun a b => a.key ≤ b.key

variable (env : Environment)

namespace Vout

def sum {β : Type} (value : β → Except Fault ℕ) (items : List β) : Except Fault ℕ :=
  items.foldlM (fun sum item => do Uint256.add sum (← value item)) 0

def valuePlusFee (vout : List TXOut) : Except Fault ℕ :=
  sum TXOut.valuePlusFee vout

/-- An output that has not been found is `none`. -/
def remainingValue (vout : List (Option TXOut)) (currentHeight : ℕ) : Except Fault ℕ :=
  sum (fun
    | some utxo => utxo.remainingValue currentHeight
    | none => .error (.invalid "txout.remainingValue; type not defined")) vout

def setTxOutIdx (vout : List TXOut) : List TXOut :=
  vout.mapIdx fun idx utxo => utxo.setTxOutIdx idx

def validateTxOutIdx (vout : List TXOut) : Except Fault Unit := do
  require (vout.map TXOut.txOutIdx).Nodup (.invalid "vout.validateTxOutIdx; duplicate txOutIdx")
  require (∀ i < vout.length, i ∈ vout.map TXOut.txOutIdx)
    (.invalid "vout.validateTxOutIdx; missing tx out index")

def validateFees (vout : List TXOut) : Except Fault Unit :=
  vout.forM (TXOut.validateFee env)

def isCleanupVout : List TXOut → Bool
  | [.valueStore vs] => vs.vsPreImage.fee == 0
  | _ => false

end Vout

/-- The inputs must refer to data stores that have expired. -/
def Vin.isCleanupVin (vin : List TXIn) (currentHeight : ℕ) (refUTXOs : List (Option TXOut)) :
    Bool :=
  vin ≠ [] && vin.length == refUTXOs.length && refUTXOs.all fun
    | some (.dataStore ds) => match ds.dsPreImage.isExpired currentHeight with
      | .ok expired => expired
      | .error _ => false
    | _ => false

def insertUnique (failure : Fault) (opset : List Bytes32) (id : Bytes32) :
    Except Fault (List Bytes32) := do
  require (id ∉ opset) failure
  pure (id :: opset)

namespace Tx

section

variable (b : Tx)

def validateUnique (opset : List Bytes32) : Except Fault (List Bytes32) := do
  let opset ← b.vin.foldlM (fun opset txIn => do
    insertUnique (.invalid "tx.validateUnique: duplicate input") opset (← txIn.utxoID env)) opset
  b.vout.foldlM (fun opset utxo =>
    insertUnique (.invalid "tx.validateUnique: duplicate output") opset (utxo.utxoID env)) opset

def indexHash (ds : DataStore) : Bytes32 :=
  env.hash (ds.dsPreImage.owner.marshalBinary ++ ds.dsPreImage.index.toBytes)

def validateDataStoreIndexes (opset : List Bytes32) : Except Fault (List Bytes32) :=
  b.vout.foldlM (fun opset utxo => match utxo with
    | .dataStore ds => insertUnique
      (.invalid "tx.validateDataStoreIndexes: duplicate output index for datastore") opset
        (indexHash env ds)
    | .valueStore _ => pure opset) opset

def remember : Tx :=
  { b with
    vout := b.vout.map (TXOut.remember env)
    vout_length := by rw [List.length_map]; exact b.vout_length }

def setTxOutIdx : Tx :=
  { b with
    vout := Vout.setTxOutIdx b.vout
    vout_length := by rw [Vout.setTxOutIdx, List.length_mapIdx]; exact b.vout_length }

/-- What the hash of a transaction is the root of. -/
def leaves : Except Fault (List KV) := do
  let inputs ← b.vin.mapM fun txIn => do
    let id ← txIn.utxoID env
    let hsh ← txIn.preHash env
    pure (⟨id, hsh⟩ : KV)
  pure (inputs ++ b.vout.mapIdx fun idx utxo =>
    ⟨makeUTXOID env (utxo.preHash env) idx, utxo.preHash env⟩)

/-- The transaction after the call, with its hash. -/
def TxHash : Except Fault Tx :=
  match b.txHash with
  | some _ => pure b
  | none => do
    let b := b.setTxOutIdx
    let leaves ← b.leaves env
    if leaves = [] then pure { b with txHash := some (env.hash []) }
    else
      let smt ← (SMT.Update env.hash SMT.new (sortKVs leaves)).mapError ofTrie
      pure { b with txHash := smt.root }

/-- Nothing is checked if the hash is known already. -/
def validateTxHash : Except Fault Tx :=
  match b.txHash with
  | some _ => pure b
  | none => do
    let b ← b.TxHash env
    require (∀ txIn ∈ b.vin, some txIn.txHash = b.txHash)
      (.invalid "validateTxHash: wrong txHash (vin)")
    require (∀ utxo ∈ b.vout, some utxo.txHash = b.txHash)
      (.invalid "validateTxHash: wrong txHash (vout)")
    pure b

def consumedUTXOID : Except Fault (List Bytes32) := do
  require (b.vin ≠ []) (.invalid "tx.consumedUTXOID: tx.vin not initialized")
  b.vin.mapM (TXIn.utxoID env)

def validateChainID (chainID : ℕ) : Except Fault Unit := do
  require (b.vin ≠ []) (.invalid "tx.validateChainID: tx.vin not initialized")
  require (b.vout ≠ []) (.invalid "tx.validateChainID: tx.vout not initialized")
  require (chainID ≠ 0) (.invalid "tx.validateChainID: chainID invalid; cannot be 0")
  b.vin.forM fun txIn => do
    require ((← txIn.chainID) = chainID)
      (.invalid "tx.validateChainID: invalid chainID; bad chain ID (vin)")
  b.vout.forM fun utxo => do
    require ((← utxo.chainID) = chainID)
      (.invalid "tx.validateChainID: invalid chainID; bad chain ID (vout)")

def cannotBeMinedUntil : Except Fault ℕ := do
  require (b.vout ≠ []) (.invalid "tx.cannotBeMinedUntil: tx.vout not initialized")
  b.vout.foldlM (fun maxBH utxo => do pure (max maxBH (← utxo.cannotBeMinedBeforeHeight))) 1

/-- The values in the text of the last error are left out. -/
def validateEqualVinVout (currentHeight : ℕ) (refUTXOs : List (Option TXOut)) :
    Except Fault Unit := do
  require (b.vin ≠ []) (.invalid "tx.validateEqualVinVout: tx.vin not initialized")
  require (b.vout ≠ []) (.invalid "tx.validateEqualVinVout: tx.vout not initialized")
  let minBH ← b.cannotBeMinedUntil
  let valueIn ← Vout.remainingValue refUTXOs (max minBH currentHeight)
  let valueOut ← Vout.valuePlusFee b.vout
  let valueOutPlusFee ← Uint256.add valueOut b.fee
  require (valueOutPlusFee = valueIn)
    (.invalid "tx.validateEqualVinVout: input value does not match output value")

def isCleanupTx (currentHeight : ℕ) (refUTXOs : List (Option TXOut)) : Bool :=
  Vin.isCleanupVin b.vin currentHeight refUTXOs && Vout.isCleanupVout b.vout && b.fee == 0 &&
    (b.validateEqualVinVout currentHeight refUTXOs).isOk

def validateFees (currentHeight : ℕ) (refUTXOs : List (Option TXOut)) : Except Fault Unit := do
  require (b.vin ≠ []) (.invalid "tx.validateFees: tx.vin not initialized")
  require (b.vout ≠ []) (.invalid "tx.validateFees: tx.vout not initialized")
  if b.isCleanupTx currentHeight refUTXOs then pure ()
  else
    Vout.validateFees env b.vout
    let minTxFee ← env.getMinTxFee
    require (minTxFee ≤ b.fee) (.invalid "tx.validateFees; tx.fee below minTxFee")

def validateIssuedAtForMining (currentHeight : ℕ) : Except Fault Unit := do
  require (b.vout ≠ []) (.invalid "tx.validateIssuedAtForMining: tx.vout not initialized")
  let heights ← b.vout.mapM TXOut.mustBeMinedBeforeHeight
  match (heights.filter (· ≠ MaxUint32)).dedup with
  | [] => pure ()
  | [mbh] =>
    require (epochOf mbh = epochOf currentHeight)
      (.invalid "tx.validateIssuedAtForMining: mining out of epoch")
  | _ => .error (.invalid "tx.validateIssuedAtForMining: conflicting IssuedAt")

def validate (set : List Bytes32) (currentHeight : ℕ) (consumedUTXOs : List (Option TXOut)) :
    Except Fault (List Bytes32 × Tx) := do
  require (b.vin ≠ []) (.invalid "tx.validate: tx.vin not initialized")
  require (b.vout ≠ []) (.invalid "tx.validate: tx.vout not initialized")
  Vout.validateTxOutIdx b.vout
  let set ← b.validateDataStoreIndexes env set
  let set ← b.validateUnique env set
  let b := b.remember env
  b.validateEqualVinVout currentHeight consumedUTXOs
  b.validateFees env currentHeight consumedUTXOs
  let b ← b.validateTxHash env
  pure (set, b)

end

end Tx

namespace TxVec

section

variable (txs : List Tx)

def inputs : List TXIn :=
  txs.flatMap Tx.vin

def generatedUTXOs : List TXOut :=
  txs.flatMap Tx.vout

def preValidateApplyState (chainID : ℕ) : Except Fault Unit :=
  txs.forM fun tx => tx.validateChainID chainID

def consumedUTXOIDNoDeposits : Except Fault (List Bytes32) :=
  ((inputs txs).filter fun txIn => !txIn.isDeposit).mapM (TXIn.utxoID env)

def consumedUTXOIDOnlyDeposits : Except Fault (List Bytes32) :=
  ((inputs txs).filter TXIn.isDeposit).mapM (TXIn.utxoID env)

def consumedPreHashOnlyDeposits : Except Fault (List Bytes32) :=
  ((inputs txs).filter TXIn.isDeposit).mapM (TXIn.preHash env)

def generatedUTXOID : Except Fault (List Bytes32) := do
  txs.forM fun tx => require (tx.vout ≠ []) (.invalid "tx.generatedUTXOID: tx.vout not initialized")
  pure ((generatedUTXOs txs).map (TXOut.utxoID env))

def generatedPreHash : Except Fault (List Bytes32) := do
  txs.forM fun tx =>
    require (tx.vout ≠ []) (.invalid "tx.generatedPreHash: tx.vout not initialized")
  pure ((generatedUTXOs txs).map (TXOut.preHash env))

def validateDataStoreIndexes (exclSet : List Bytes32) : Except Fault (List Bytes32) :=
  txs.foldlM (fun exclSet tx => tx.validateDataStoreIndexes env exclSet) exclSet

def voutMap (consumedUTXOs : List TXOut) : Bytes32 → Option TXOut :=
  consumedUTXOs.foldl (fun table utxo => Function.update table (utxo.utxoID env) (some utxo))
    fun _ => none

def validateFrom (currentHeight : ℕ) (table : Bytes32 → Option TXOut) : List Tx →
    (set : List Bytes32) →
    Except Fault (List Tx)
  | [], _ => pure []
  | tx :: rest, set => do
    let utxoIDs ← tx.consumedUTXOID env
    let (set, tx) ← tx.validate env set currentHeight (utxoIDs.map table)
    let rest ← validateFrom currentHeight table rest set
    pure (tx :: rest)

def validate (currentHeight : ℕ) (consumedUTXOs : List TXOut) : Except Fault (List Tx) :=
  validateFrom env currentHeight (voutMap env consumedUTXOs) txs []

end

end TxVec

end AliceNet.Application
