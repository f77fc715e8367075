import AliceNet.Application.UTXOHandler

/-! The handler of transactions: what is checked of a block, and what is done when it is applied. -/

namespace AliceNet.Application

open Consensus (Fault)
open Outcome (require)

variable (env : Environment)

namespace DepositHandler

def get (s : State) (records : Bytes32 → Option TXOut) :
    List Bytes32 → Except Fault (List TXOut × List Bytes32 × List TXOut)
  | [] => pure ([], [], [])
  | utxoID :: rest =>
    match records utxoID with
    | none => do
      let (found, missing, spent) ← get s records rest
      pure (found, utxoID :: missing, spent)
    | some utxo => do
      let isSpent ← s.trie.contains utxoID
      let (found, missing, spent) ← get s records rest
      if isSpent then pure (found, missing, utxo :: spent) else pure (utxo :: found, missing, spent)

def isValid (s : State) (records : Bytes32 → Option TXOut) (txs : List Tx) :
    Except Fault (List TXOut) := do
  let utxoIDs ← TxVec.consumedUTXOIDOnlyDeposits env txs
  let (found, missing, spent) ← get s records utxoIDs
  require (missing = []) (.invalid "depositHandler.IsValid; a deposit is missing")
  require (spent.length = 0) (.invalid "depositHandler.IsValid; a deposit is already spent")
  pure found

end DepositHandler

namespace TxHandler

/-- The consumed outputs of the whole list, the deposits first. -/
def isValid (s : State) (records : Bytes32 → Option TXOut) (txs : List Tx) (currentHeight : ℕ) :
    Except Fault (List TXOut) := do
  let deposits ← DepositHandler.isValid env s records txs
  let consumed ← UTXOHandler.isValid env s txs currentHeight deposits
  pure (deposits ++ consumed)

/-- The checks of `ApplyState`, and the transactions as they leave them. -/
def validate (s : State) (records : Bytes32 → Option TXOut) (chainID height : ℕ) (txs : List Tx) :
    Except Fault (List Tx) := do
  TxVec.preValidateApplyState txs chainID
  let vout ← isValid env s records txs height
  TxVec.validate env txs height vout

def applyState (s : State) (records : Bytes32 → Option TXOut) (chainID height : ℕ) (txs : List Tx) :
    Except Fault (Option Bytes32 × State) :=
  if txs = [] then UTXOHandler.applyState env s txs height
  else do
    let txs ← validate env s records chainID height txs
    let (rootHash, s) ← UTXOHandler.applyState env s txs height
    txs.forM fun tx => tx.validateIssuedAtForMining height
    pure (rootHash, s)

end TxHandler

def isValid (s : State) (records : Bytes32 → Option TXOut) (chainID height : ℕ)
    (stateHash : Option Bytes32) (txs : List Tx) : Except Fault Bool :=
  if txs = [] then do
    let stateRoot ← s.trie.getStateRootForProposal env txs
    pure (decide (stateHash = stateRoot))
  else do
    let txs ← TxHandler.validate env s records chainID height txs
    match s.trie.getStateRootForProposal env txs with
    | .error (.invalid _) => pure false
    | .error failure => .error failure
    | .ok stateRoot => pure (decide (some (stateHash.getD 0) = stateRoot))

end AliceNet.Application
