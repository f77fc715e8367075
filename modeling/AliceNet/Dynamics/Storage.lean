import AliceNet.Library.Outcome
import AliceNet.Library.LinkedTable

/-! The dynamic parameters as a node keeps them, in a doubly linked list over the epochs. Loops have
fuel; how much is enough is proved where it is used. -/

namespace AliceNet.Dynamics

open Outcome

inductive Failure
  | zeroEpoch
  | keyNotPresent
  | invalidUpdateValue
  | invalid
  | invalidNode
  /-- The text of an update is no number of its kind. -/
  | notANumber
  /-- A loop has not ended. -/
  | running
  deriving Repr, DecidableEq

/-- Durations are nanoseconds in 64 bits; a fee that is not set is zero. -/
structure RawStorage where
  maxBytes : UInt32
  maxProposalSize : UInt32
  proposalStepTimeout : Int64
  preVoteStepTimeout : Int64
  preCommitStepTimeout : Int64
  deadBlockRoundNextRoundTimeout : Int64
  downloadTimeout : Int64
  srvrMsgTimeout : Int64
  msgTimeout : Int64
  minTxFee : ℕ
  txValidVersion : UInt32
  valueStoreFee : ℕ
  valueStoreValidVersion : UInt32
  dataStoreEpochFee : ℕ
  dataStoreValidVersion : UInt32
  deriving DecidableEq

inductive UpdateType
  | maxBytesType
  | proposalStepTimeoutType
  | preVoteStepTimeoutType
  | preCommitStepTimeoutType
  | msgTimeoutType
  | minTxFeeType
  | txValidVersionType
  | valueStoreFeeType
  | valueStoreValidVersionType
  | dataStoreEpochFeeType
  | dataStoreValidVersionType
  deriving Repr, DecidableEq

structure Update where
  key : UpdateType
  value : String
  epoch : ℕ
  deriving Repr, DecidableEq

/-- The numbers that the standard library reads from a text. -/
structure Strconv where
  parseUint32 : String → Option UInt32
  parseInt64 : String → Option Int64
  parseBigInt : String → Option ℤ

variable (strconv : Strconv)

def stringToUint32 (value : String) : Except Failure UInt32 :=
  match strconv.parseUint32 value with
  | some v => pure v
  | none => .error .notANumber

def stringToTimeDuration (value : String) : Except Failure Int64 :=
  match strconv.parseInt64 value with
  | some v => do
    require (0 ≤ v) .invalid
    pure v
  | none => .error .notANumber

def stringToBigInt (value : String) : Except Failure ℕ :=
  match strconv.parseBigInt value with
  | some v => do
    require (0 ≤ v) .invalid
    pure v.toNat
  | none => .error .invalid

namespace RawStorage

/-- The parameters of a storage that has not been set up. -/
def zero : RawStorage := ⟨0, 0, 0, 0, 0, 0, 0, 0, 0, 0, 0, 0, 0, 0, 0⟩

def standardParameters : RawStorage where
  maxBytes := 3000000
  maxProposalSize := 3000000
  proposalStepTimeout := 4000000000
  preVoteStepTimeout := 3000000000
  preCommitStepTimeout := 3000000000
  deadBlockRoundNextRoundTimeout := 25000000000
  downloadTimeout := 10000000000
  srvrMsgTimeout := 3000000000
  msgTimeout := 4000000000
  minTxFee := 0
  txValidVersion := 0
  valueStoreFee := 0
  valueStoreValidVersion := 0
  dataStoreEpochFee := 0
  dataStoreValidVersion := 0

section

variable (rs : RawStorage)

def setMaxBytes (value : UInt32) : RawStorage :=
  { rs with maxBytes := value, maxProposalSize := value }

def setMsgTimeout (value : Int64) : RawStorage :=
  { rs with msgTimeout := value, srvrMsgTimeout := 3 * value / 4 }

/-- The timeouts that follow from those of the three steps. -/
def deriveTimeouts : RawStorage :=
  let sum := rs.proposalStepTimeout + rs.preVoteStepTimeout + rs.preCommitStepTimeout
  { rs with downloadTimeout := sum, deadBlockRoundNextRoundTimeout := 5 * sum / 2 }

def setProposalStepTimeout (value : Int64) : RawStorage :=
  deriveTimeouts { rs with proposalStepTimeout := value }

def setPreVoteStepTimeout (value : Int64) : RawStorage :=
  deriveTimeouts { rs with preVoteStepTimeout := value }

def setPreCommitStepTimeout (value : Int64) : RawStorage :=
  deriveTimeouts { rs with preCommitStepTimeout := value }

def updateValue (update : Update) : Except Failure RawStorage :=
  match update.key with
  | .maxBytesType => do pure (rs.setMaxBytes (← stringToUint32 strconv update.value))
  | .proposalStepTimeoutType => do
      pure (rs.setProposalStepTimeout (← stringToTimeDuration strconv update.value))
  | .preVoteStepTimeoutType => do
      pure (rs.setPreVoteStepTimeout (← stringToTimeDuration strconv update.value))
  | .preCommitStepTimeoutType => do
      pure (rs.setPreCommitStepTimeout (← stringToTimeDuration strconv update.value))
  | .msgTimeoutType => do pure (rs.setMsgTimeout (← stringToTimeDuration strconv update.value))
  | .minTxFeeType => do pure { rs with minTxFee := ← stringToBigInt strconv update.value }
  | .txValidVersionType => do pure { rs with
      txValidVersion := ← stringToUint32 strconv update.value }
  | .valueStoreFeeType => do pure { rs with valueStoreFee := ← stringToBigInt strconv update.value }
  | .valueStoreValidVersionType => do pure { rs with
      valueStoreValidVersion := ← stringToUint32 strconv update.value }
  | .dataStoreEpochFeeType => do pure { rs with
      dataStoreEpochFee := ← stringToBigInt strconv update.value }
  | .dataStoreValidVersionType => do pure { rs with
      dataStoreValidVersion := ← stringToUint32 strconv update.value }

end

end RawStorage

structure Node where
  thisEpoch : ℕ
  prevEpoch : ℕ
  nextEpoch : ℕ
  rawStorage : RawStorage
  deriving DecidableEq

namespace Node

def isValid (n : Node) : Bool :=
  n.thisEpoch != 0 && n.prevEpoch != 0 && n.nextEpoch != 0 && n.prevEpoch ≤ n.thisEpoch &&
    n.thisEpoch ≤ n.nextEpoch

def isPreValid (n : Node) : Bool :=
  n.thisEpoch != 0 && n.prevEpoch == 0 && n.nextEpoch == 0

def isHead (n : Node) : Bool :=
  n.isValid && n.thisEpoch == n.nextEpoch

def isTail (n : Node) : Bool :=
  n.isValid && n.thisEpoch == n.prevEpoch

def setEpochsBetween (n prevNode nextNode : Node) : Except Failure (Node × Node × Node) := do
  require (n.isPreValid = true) .invalid
  require (prevNode.isValid = true ∧ nextNode.isValid = true ∧ prevNode.thisEpoch < n.thisEpoch ∧
    n.thisEpoch < nextNode.thisEpoch) .invalid
  pure ({ prevNode with nextEpoch := n.thisEpoch },
    { n with prevEpoch := prevNode.thisEpoch, nextEpoch := nextNode.thisEpoch },
    { nextNode with prevEpoch := n.thisEpoch })

/-- `SetEpochs` without a next node. -/
def setEpochsHead (n prevNode : Node) : Except Failure (Node × Node) := do
  require (n.isPreValid = true) .invalid
  require (prevNode.isValid = true ∧ prevNode.thisEpoch < n.thisEpoch ∧ prevNode.isHead = true)
    .invalid
  pure ({ prevNode with nextEpoch := n.thisEpoch },
    { n with prevEpoch := prevNode.thisEpoch, nextEpoch := n.thisEpoch })

end Node

/-- `linkedList` is the epoch that was last updated. -/
structure Database where
  linkedList : Option ℕ
  nodes : ℕ → Option Node

namespace Database

def empty : Database := ⟨none, fun _ => none⟩

def setNode (db : Database) (node : Node) : Except Failure Database := do
  require (node.isValid = true) .invalidNode
  pure { db with nodes := Function.update db.nodes node.thisEpoch (some node) }

def getNode (db : Database) (epoch : ℕ) : Except Failure Node := do
  require (epoch ≠ 0) .zeroEpoch
  match db.nodes epoch with
  | none => .error .keyNotPresent
  | some node => do
    require (node.isValid = true) .invalidNode
    pure node

def setLinkedList (db : Database) (epochLastUpdated : ℕ) : Except Failure Database := do
  require (epochLastUpdated ≠ 0) .invalid
  pure { db with linkedList := some epochLastUpdated }

def getLinkedList (db : Database) : Except Failure ℕ :=
  match db.linkedList with
  | none => .error .keyNotPresent
  | some epochLastUpdated => do
    require (epochLastUpdated ≠ 0) .invalid
    pure epochLastUpdated

end Database

section

variable (db : Database) (update : Update) (node : Node)

/-- Back from a node to the first one that is not after the epoch. -/
def walkBack (db : Database) (epoch : ℕ) (failure : Failure) : (fuel : ℕ) → Node →
    Except Failure Node
  | 0, _ => .error .running
  | fuel + 1, currentNode =>
    if currentNode.thisEpoch ≤ epoch then pure currentNode
    else if currentNode.isTail then .error failure
    else do
      let currentNode ← db.getNode currentNode.prevEpoch
      walkBack db epoch failure fuel currentNode

def loadRawStorage (epoch : ℕ) : Except Failure RawStorage := do
  require (epoch ≠ 0) .zeroEpoch
  let elu ← db.getLinkedList
  let currentNode ← db.getNode elu
  let node ← walkBack db epoch .invalid (elu + 1) currentNode
  pure node.rawStorage

/-- What `LoadStorage` sets. -/
def loadStorage (epoch : ℕ) : Except Failure RawStorage :=
  match loadRawStorage db epoch with
  | .error .keyNotPresent => pure .standardParameters
  | outcome => outcome

def addNodeHead (node headNode : Node) : Except Failure Database := do
  require (node.isPreValid = true ∧ headNode.isValid = true) .invalid
  require (headNode.isHead = true ∧ headNode.thisEpoch < node.thisEpoch) .invalid
  let (headNode, node) ← node.setEpochsHead headNode
  let db ← db.setNode headNode
  let db ← db.setNode node
  let _ ← db.getLinkedList
  require (node.thisEpoch ≠ 0) .zeroEpoch
  db.setLinkedList node.thisEpoch

def addNodeSplit (node prevNode nextNode : Node) : Except Failure Database := do
  require (node.isPreValid = true ∧ prevNode.isValid = true ∧ nextNode.isValid = true) .invalid
  require (prevNode.thisEpoch < node.thisEpoch ∧ node.thisEpoch < nextNode.thisEpoch) .invalid
  let (prevNode, node, nextNode) ← node.setEpochsBetween prevNode nextNode
  let db ← db.setNode prevNode
  let db ← db.setNode nextNode
  db.setNode node

/-- Back from a node to the place where the new one belongs. -/
def addNodeFrom (db : Database) (node : Node) : (fuel : ℕ) → (currentNode : Node) →
    Except Failure Database
  | 0, _ => .error .running
  | fuel + 1, currentNode => do
    let prevNode ← db.getNode currentNode.prevEpoch
    if prevNode.thisEpoch < node.thisEpoch ∧ node.thisEpoch < currentNode.thisEpoch then
      addNodeSplit db node prevNode currentNode
    else if node.thisEpoch = prevNode.thisEpoch then .error .invalid
    else if prevNode.isTail then .error .invalid
    else addNodeFrom db node fuel prevNode

def addNode : Except Failure Database := do
  require (node.isPreValid = true) .invalid
  let elu ← db.getLinkedList
  let currentNode ← db.getNode elu
  if currentNode.thisEpoch < node.thisEpoch then addNodeHead db node currentNode
  else if node.thisEpoch = currentNode.thisEpoch then .error .invalid
  else if currentNode.isTail then .error .invalid
  else addNodeFrom db node (elu + 1) currentNode

/-- Forth from a node to the last one, each with the update. -/
def replay (update : Update) : (fuel : ℕ) → Database → Node → Except Failure Database
  | 0, _, _ => .error .running
  | fuel + 1, db, iterNode => do
    let rs ← iterNode.rawStorage.updateValue strconv update
    let iterNode := { iterNode with rawStorage := rs }
    let db ← db.setNode iterNode
    if iterNode.isHead then pure db
    else do
      let iterNode ← db.getNode iterNode.nextEpoch
      replay update fuel db iterNode

/-- The new node is a copy of the one before with the update. -/
def addUpdated (duplicateNode : Node) : Except Failure Database := do
  let rs ← duplicateNode.rawStorage.updateValue strconv update
  addNode db ⟨update.epoch, 0, 0, rs⟩

def updateStorageValue : Except Failure Database := do
  let elu ← db.getLinkedList
  let lastNode ← db.getNode elu
  let iterNode ← walkBack db update.epoch .invalidUpdateValue (elu + 1) lastNode
  if update.epoch = iterNode.thisEpoch then replay strconv update (elu + 1) db iterNode
  else if iterNode.isHead then do
    let db ← addUpdated strconv db update iterNode
    require (update.epoch ≠ 0) .zeroEpoch
    db.setLinkedList update.epoch
  else do
    let firstNode ← db.getNode iterNode.nextEpoch
    let db ← addUpdated strconv db update iterNode
    replay strconv update (elu + 1) db firstNode

def checkUpdate : Except Failure Unit := do
  require (update.epoch ≠ 0) .invalidUpdateValue
  let _ ← RawStorage.zero.updateValue strconv update
  pure ()

/-- `CreateLinkedList` and the calls that store its results. -/
def createLinkedList : Except Failure Database := do
  let db ← db.setLinkedList 1
  db.setNode ⟨1, 1, 1, .standardParameters⟩

/-- The list is created by the first update. -/
def initialized : Except Failure Database :=
  match db.getLinkedList with
  | .ok _ => pure db
  | .error .keyNotPresent => createLinkedList db
  | .error failure => .error failure

def updateStorage : Except Failure Database := do
  checkUpdate strconv update
  let db ← initialized db
  updateStorageValue strconv db update

end

end AliceNet.Dynamics
