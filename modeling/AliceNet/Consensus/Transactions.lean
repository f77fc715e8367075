import AliceNet.Consensus.Store

/-! Transactions as the consensus engine sees them. -/

namespace AliceNet.Consensus

open Outcome (require)
open Stateful (lift focus)

structure Application (α τ : Type) where
  txHash : τ → Except Fault Hash
  getValidProposal : α → (chainID height maxBytes : ℕ) → Except Fault (List τ × Option Hash)
  isValid : α → (chainID height : ℕ) → Hash → List τ → Except Fault Bool
  applyState : (chainID height : ℕ) → List τ → EStateM Fault α Hash
  /-- One lookup in the pending pool, by epoch; `missingTransactions` if it is not there. -/
  getPendingTx : α → (epoch : ℕ) → Hash → Except Fault τ

structure Storage where
  proposalStepTimeout : ℕ
  preVoteStepTimeout : ℕ
  preCommitStepTimeout : ℕ
  deadBlockRoundNextRoundTimeout : ℕ
  maxProposalSize : ℕ
  deriving Repr, DecidableEq

structure Engine (α τ : Type) where
  crypto : Crypto
  app : Application α τ
  ethAcct : Address
  chainID : ℕ
  /-- Whether the private key of a share is in the key store. -/
  privK : GroupShare → Bool
  /-- The root of the trie of headers after one more header. -/
  headerTrie : Option Hash → BlockHeader → Except Fault Hash

/-- What a node keeps; `signed` lists what its key has signed. -/
structure Node (α τ : Type) where
  db : Database τ
  app : α
  bnSigner : Option (GroupShare × GroupKey)
  txc : Hash → Option (ℕ × τ)
  signed : List Statement

abbrev NodeStep (α τ : Type) := EStateM Fault (Node α τ)

structure TxResult (τ : Type) where
  wanted : List Hash
  obtained : List Hash
  txs : List τ

namespace TxResult

variable {α τ : Type} (app : Application α τ)

def init (txHashes : List Hash) : TxResult τ := ⟨txHashes.dedup, [], []⟩

def missing (t : TxResult τ) : List Hash := t.wanted.filter fun h => h ∉ t.obtained

def add (t : TxResult τ) (tx : τ) : Except Fault (TxResult τ) := do
  let txHash ← app.txHash tx
  if txHash ∈ t.wanted ∧ txHash ∉ t.obtained then
    pure { t with obtained := t.obtained ++ [txHash], txs := t.txs ++ [tx] }
  else pure t

/-- All are tried; an error is reported at the end. -/
def addMany (t : TxResult τ) : List τ → Except Fault (TxResult τ)
  | [] => pure t
  | tx :: rest =>
    match t.add app tx with
    | .ok t => t.addMany rest
    | .error e =>
      match t.addMany rest with
      | .ok _ => .error e
      | .error last => .error last

def addFrom (lookup : Hash → Option τ) (t : TxResult τ) : List Hash → Except Fault (TxResult τ)
  | [] => pure t
  | h :: rest =>
    match lookup h with
    | some tx => do (← t.add app tx).addFrom lookup rest
    | none => t.addFrom lookup rest

end TxResult

section DMan

variable {α τ : Type} (engine : Engine α τ)

/-- `PendingTxGet`: what the pool does not have is left out. -/
def pendingTxGet (pool : α) (height : ℕ) : List Hash → Except Fault (List τ)
  | [] => pure []
  | h :: rest =>
    match engine.app.getPendingTx pool (epochOf height) h with
    | .ok tx => do pure (tx :: (← pendingTxGet pool height rest))
    | .error .missingTransactions => pendingTxGet pool height rest
    | .error e => throw e

/-- The same within `GetTxs`, where some errors count as nothing found. -/
def pendingFound (pool : α) (height : ℕ) (hashes : List Hash) : Except Fault (List τ) :=
  match pendingTxGet engine pool height hashes with
  | .ok found => pure found
  | .error .keyNotFound => pure []
  | .error e => if e.tolerable then pure [] else throw e

def addTxs (height : ℕ) : List τ → NodeStep α τ Unit
  | [] => pure ()
  | tx :: rest => do
    let txHash ← lift (engine.app.txHash tx)
    modify fun n => { n with db := n.db.setTxCacheItem height txHash tx }
    addTxs height rest

def getTxs (height : ℕ) (txLst : List Hash) : NodeStep α τ (List τ × List Hash) := do
  let n ← get
  let cached ← lift ((TxResult.init txLst).addFrom engine.app (n.db.txCache height)
    (TxResult.init (τ := τ) txLst).missing)
  let found ← lift (pendingFound engine n.app height cached.missing)
  addTxs engine height found
  let pooled ← lift (cached.addMany engine.app found)
  let downloaded := pooled.missing.filterMap fun h => (n.txc h).map Prod.snd
  let result ← lift (pooled.addMany engine.app downloaded)
  pure (result.txs, result.missing)

def Node.flushed (n : Node α τ) (height : ℕ) (h : Hash) : Option τ :=
  match n.txc h with
  | some (filed, tx) => if filed = height + 1 then some tx else n.db.txCache height h
  | none => n.db.txCache height h

def flushCacheToDisk (height : ℕ) : NodeStep α τ Unit :=
  modify fun n =>
    { n with db := { n.db with txCache := Function.update n.db.txCache height (n.flushed height) } }

def cleanCache (height : ℕ) : NodeStep α τ Unit :=
  modify fun n =>
    if 10 < height ∧ 256 ≤ height - 5 then
      { n with txc := fun h => (n.txc h).filter fun entry => height - 5 < entry.1 }
    else n

def isValid (syncToBH : BlockHeader) (chainID : ℕ) (stateHash headerRoot : Hash) (txs : List τ) :
    NodeStep α τ Bool := do
  let n ← get
  let goodHeaderRoot ← lift (n.db.getHeaderTrieRoot syncToBH.bClaims.height)
  if goodHeaderRoot ≠ headerRoot then return false
  match engine.app.isValid n.app chainID (syncToBH.bClaims.height + 1) stateHash txs with
  | .error e => if e.isInvalid then return false else throw e
  | .ok false => throw (.invalid "is valid returned not ok")
  | .ok true => do
    addTxs engine (syncToBH.bClaims.height + 1) txs
    return true

/-- What `getValidValue` returns, in its order. -/
structure ValidValue where
  txHashes : List Hash
  txRootHash : Hash
  stateRoot : Option Hash
  headerRoot : Hash

def getValidValue (maxProposalSize : ℕ) (syncToBH : BlockHeader) : NodeStep α τ ValidValue := do
  let n ← get
  let (txs, stateRoot) ← lift (engine.app.getValidProposal n.app syncToBH.bClaims.chainID
    (syncToBH.bClaims.height + 1) maxProposalSize)
  addTxs engine (syncToBH.bClaims.height + 1) txs
  let txHashes ← lift (txs.mapM engine.app.txHash)
  let txRootHash ← lift (engine.crypto.makeTxRoot txHashes)
  pure ⟨txHashes, txRootHash, stateRoot, (n.db.headerTrieRoot syncToBH.bClaims.height).getD 0⟩

/-- `applyState`: no block is applied with a transaction missing. -/
def applyState (syncToBH : BlockHeader) (chainID : ℕ) (txHashes : List Hash) :
    NodeStep α τ Unit := do
  let (txs, missing) ← getTxs engine (syncToBH.bClaims.height + 1) txHashes
  if 0 < missing.length then throw .missingTransactions
  addTxs engine (syncToBH.bClaims.height + 1) txs
  discard (focus (·.app) (fun app n => { n with app := app })
    (engine.app.applyState chainID (syncToBH.bClaims.height + 1) txs))

def setCommittedBlockHeader (v : BlockHeader) : NodeStep α τ Unit := do
  let n ← get
  let headerRoot ← lift (engine.headerTrie n.db.currentHeaderRoot v)
  let height := v.bClaims.height
  modify fun n => { n with db := { n.db with
    currentHeaderRoot := some headerRoot
    headerTrieRoot := Function.update n.db.headerTrieRoot height (some headerRoot)
    committedBlockHeader := Function.update n.db.committedBlockHeader height (some v) } }
  if height = 1 ∨ height % EpochLength = 0 then
    modify fun n => { n with db := n.db.setSnapshotBlockHeader v }

end DMan

end AliceNet.Consensus
