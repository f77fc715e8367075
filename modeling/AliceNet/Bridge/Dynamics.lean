import AliceNet.Library.Bytes
import AliceNet.Library.Word

/-! The dynamics contract: values of the side chain that change at scheduled epochs. -/

namespace AliceNet.Bridge.Dynamics

open Outcome (require)

abbrev Address := ℕ

inductive Version
  | V1
  deriving DecidableEq, Repr

structure DynamicValues where
  encoderVersion : Version
  proposalTimeout : BitVec 24
  preVoteTimeout : BitVec 32
  preCommitTimeout : BitVec 32
  maxBlockSize : BitVec 32
  dataStoreFee : BitVec 64
  valueStoreFee : BitVec 64
  minScaledTransactionFee : BitVec 128
  deriving DecidableEq, Repr

structure Configuration where
  minEpochsBetweenUpdates : ℕ
  maxEpochsBetweenUpdates : ℕ
  deriving DecidableEq, Repr

structure CanonicalVersion where
  major : ℕ
  minor : ℕ
  patch : ℕ
  executionEpoch : ℕ
  binaryHash : Bytes32
  deriving DecidableEq, Repr

structure Node where
  epoch : ℕ
  next : ℕ
  prev : ℕ
  data : Address
  deriving DecidableEq, Repr

structure DoublyLinkedList where
  head : ℕ
  tail : ℕ
  nodes : ℕ → Node

inductive Revert
  | InvalidScheduledDate (scheduledDate minScheduledDate maxScheduledDate : ℕ)
  | InvalidExtCodeSize (addr : Address) (codeSize : ℕ)
  | DynamicValueNotFound (epoch : ℕ)
  | InvalidAliceNetNodeHash (sentHash currentHash : Bytes32)
  | InvalidAliceNetNodeVersion (newVersion current : CanonicalVersion)
  | InvalidNodeId (head tail id : ℕ)
  | ExistentNodeAtPosition (id : ℕ)
  | InexistentNodeAtPosition (id : ℕ)
  | InvalidData
  | OnlyFactory (sender expected : Address)
  | OnlySnapshots (sender expected : Address)
  | alreadyInitialized
  | createFailed
  | panic (code : ℕ)
  deriving DecidableEq, Repr

structure Contract where
  factory : Address
  snapshots : Address

/-- Storage of the contract with the code of all accounts. -/
structure Storage where
  initialized : Bool
  dynamicValues : DoublyLinkedList
  configuration : Configuration
  aliceNetCanonicalVersion : CanonicalVersion
  code : Address → Bytes

structure Msg where
  sender : Address
  getEpoch : ℕ
  created : Address

def add32 : ℕ → ℕ → Except Revert ℕ := Word.add 32 (.panic 0x11)

def onlyFactory (contract : Contract) (msg : Msg) : Except Revert Unit :=
  require (msg.sender = contract.factory) (.OnlyFactory msg.sender contract.factory)

def onlySnapshots (contract : Contract) (msg : Msg) : Except Revert Unit :=
  require (msg.sender = contract.snapshots) (.OnlySnapshots msg.sender contract.snapshots)

namespace DoublyLinkedList

variable (list : DoublyLinkedList)

def present (epoch : ℕ) : Prop := (list.nodes epoch).data ≠ 0

instance (epoch : ℕ) : Decidable (list.present epoch) := inferInstanceAs (Decidable (_ ≠ _))

def setHead (epoch : ℕ) : Except Revert DoublyLinkedList := do
  require (list.present epoch) (.InexistentNodeAtPosition epoch)
  pure { list with head := epoch }

def setTail (epoch : ℕ) : Except Revert DoublyLinkedList := do
  require (list.present epoch) (.InexistentNodeAtPosition epoch)
  pure { list with tail := epoch }

def setNode (epoch : ℕ) (node : Node) : DoublyLinkedList :=
  { list with nodes := Function.update list.nodes epoch node }

def linkNext (prevEpoch nextEpoch : ℕ) : DoublyLinkedList :=
  list.setNode prevEpoch { list.nodes prevEpoch with next := nextEpoch }

def createNode (epoch : ℕ) (data : Address) : Node := ⟨epoch, 0, 0, data⟩

def addNode (epoch : ℕ) (data : Address) : Except Revert DoublyLinkedList := do
  let head := list.head % 2 ^ 32
  let tail := list.tail % 2 ^ 32
  require (tail < epoch) (.InvalidNodeId head tail epoch)
  require (¬ list.present epoch) (.ExistentNodeAtPosition epoch)
  require (data ≠ 0) .InvalidData
  let node := createNode epoch data
  if head = 0 then
    let list ← (list.setNode epoch node).setHead epoch
    list.setTail epoch
  else
    ((list.setNode epoch { node with prev := tail }).linkNext tail epoch).setTail epoch

end DoublyLinkedList

/-- `abi.encodePacked` of numbers with their sizes in bytes. -/
def encodePacked (fields : List (ℕ × ℕ)) : Bytes :=
  fields.flatMap fun field => Bytes.bigEndian field.1 field.2

def Version.encode : Version → ℕ
  | .V1 => 0

def Version.decode : ℕ → Except Revert Version
  | 0 => pure .V1
  | _ => throw (.panic 0x21)

def encodeDynamicValues (value : DynamicValues) : Bytes :=
  encodePacked [(1, value.encoderVersion.encode), (3, value.proposalTimeout.toNat),
    (4, value.preVoteTimeout.toNat),
    (4, value.preCommitTimeout.toNat), (4, value.maxBlockSize.toNat), (8, value.dataStoreFee.toNat),
    (8, value.valueStoreFee.toNat), (16, value.minScaledTransactionFee.toNat)]

def decodeFields : (sizes : List ℕ) → (code : Bytes) → List ℕ
  | [], _ => []
  | size :: sizes, code => Bytes.value (code.take size) :: decodeFields sizes (code.drop size)

def decodeDynamicValues (s : Storage) (addr : Address) : Except Revert DynamicValues := do
  let code := s.code addr
  require (code.length ≠ 0 ∧ 48 ≤ code.length) (.InvalidExtCodeSize addr code.length)
  match decodeFields [1, 3, 4, 4, 4, 8, 8, 16] code with
  | [version, proposal, preVote, preCommit, block, dataStore, valueStore, minScaled] =>
    pure ⟨← Version.decode version, .ofNat 24 proposal, .ofNat 32 preVote, .ofNat 32 preCommit,
      .ofNat 32 block, .ofNat 64 dataStore, .ofNat 64 valueStore, .ofNat 128 minScaled⟩
  | _ => throw (.panic 0x32)

def deployStorage (s : Storage) (msg : Msg) (data : Bytes) : Except Revert (Storage × Address) := do
  require (msg.created ≠ 0) .createFailed
  pure ({ s with code := Function.update s.code msg.created data }, msg.created)

section

variable (contract : Contract) (s : Storage) (msg : Msg)

def addNode (executionEpoch : ℕ) (value : DynamicValues) : Except Revert Storage := do
  let (s, dataAddress) ← deployStorage s msg (encodeDynamicValues value)
  let list ← s.dynamicValues.addNode executionEpoch dataAddress
  pure { s with dynamicValues := list }

def initialValues : DynamicValues := ⟨.V1, 4000, 3000, 3000, 3000000, 0, 0, 0⟩

def initializeStorage : Except Revert Storage := do
  onlyFactory contract msg
  require (s.initialized = false) .alreadyInitialized
  addNode { s with initialized := true, configuration := ⟨2, 336⟩ } msg 1 initialValues

def computeExecutionEpoch (relativeExecutionEpoch : ℕ) : Except Revert ℕ := do
  let config := s.configuration
  require (config.minEpochsBetweenUpdates ≤ relativeExecutionEpoch ∧
      relativeExecutionEpoch ≤ config.maxEpochsBetweenUpdates)
    (.InvalidScheduledDate relativeExecutionEpoch config.minEpochsBetweenUpdates
      config.maxEpochsBetweenUpdates)
  add32 relativeExecutionEpoch (msg.getEpoch % 2 ^ 32)

def changeDynamicValues (relativeExecutionEpoch : ℕ) (newValue : DynamicValues) :
    Except Revert Storage := do
  onlyFactory contract msg
  addNode s msg (← computeExecutionEpoch s msg relativeExecutionEpoch) newValue

def updateHead (currentEpoch : ℕ) : Except Revert Storage := do
  onlySnapshots contract msg
  let nextEpoch := (s.dynamicValues.nodes s.dynamicValues.head).next
  if nextEpoch ≠ 0 ∧ nextEpoch ≤ currentEpoch then
    pure { s with dynamicValues := ← s.dynamicValues.setHead nextEpoch }
  else pure s

def setConfiguration (newConfig : Configuration) : Except Revert Storage := do
  onlyFactory contract msg
  pure { s with configuration := newConfig }

/-- Disjoint bits, so that `or` adds. -/
def computeCompactedVersion (majorVersion minorVersion patch : ℕ) : ℕ :=
  majorVersion <<< 64 ||| minorVersion <<< 32 ||| patch

def updateAliceNetNodeVersion (relativeUpdateEpoch majorVersion minorVersion patch : ℕ)
    (binaryHash : Bytes32) : Except Revert Storage := do
  onlyFactory contract msg
  let currentVersion := s.aliceNetCanonicalVersion
  let executionEpoch ← computeExecutionEpoch s msg relativeUpdateEpoch
  let newVersion : CanonicalVersion :=
    ⟨majorVersion, minorVersion, patch, executionEpoch, binaryHash⟩
  require (computeCompactedVersion currentVersion.major currentVersion.minor currentVersion.patch <
      computeCompactedVersion majorVersion minorVersion patch)
        (.InvalidAliceNetNodeVersion newVersion currentVersion)
  let largest ← add32 currentVersion.major 1
  require (majorVersion ≤ largest) (.InvalidAliceNetNodeVersion newVersion currentVersion)
  require (binaryHash ≠ 0 ∧ binaryHash ≠ currentVersion.binaryHash)
    (.InvalidAliceNetNodeHash binaryHash currentVersion.binaryHash)
  pure { s with aliceNetCanonicalVersion := newVersion }

end

def getLatestDynamicValues (s : Storage) : Except Revert DynamicValues :=
  decodeDynamicValues s (s.dynamicValues.nodes s.dynamicValues.head).data

def getPreviousDynamicValues (s : Storage) (epoch : ℕ) : Except Revert DynamicValues :=
  let head := s.dynamicValues.head
  let previous := (s.dynamicValues.nodes head).prev
  if head ≤ epoch then decodeDynamicValues s (s.dynamicValues.nodes head).data
  else if previous ≠ 0 ∧ previous ≤ epoch then
    decodeDynamicValues s (s.dynamicValues.nodes previous).data
  else .error (.DynamicValueNotFound epoch)

end AliceNet.Bridge.Dynamics
