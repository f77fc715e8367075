import Mathlib

/-! The monitor of layer 1, which hands the logs of finalized blocks to their processors. -/

namespace AliceNet.Layer1.Monitor

abbrev Address := BitVec 160

def MonitorRetryCount : ℕ := 10

structure PotentialValidator where
  account : Address
  tokenID : ℕ
  deriving Repr, DecidableEq

abbrev PotentialValidators := Address → Option PotentialValidator

inductive Log
  | validatorJoined (account : Address) (validatorStakingTokenID : ℕ)
  | validatorLeft (account : Address) (publicStakingTokenID : ℕ)
  | validatorMinorSlashed (account : Address) (publicStakingTokenID : ℕ)
  | validatorMajorSlashed (account : Address)
  | other (eventID : ℕ)
  | unregistered (eventID : ℕ)
  deriving Repr, DecidableEq

inductive Error
  /-- validator is not present in the potential validators -/
  | notPresent
  | deadlineExceeded
  | failed
  deriving Repr, DecidableEq

def addPotentialValidator (state : PotentialValidators) (account : Address) (tokenID : ℕ) :
    PotentialValidators :=
  Function.update state account (some ⟨account, tokenID⟩)

def deletePotentialValidator (state : PotentialValidators) (account : Address) :
    Except Error PotentialValidators :=
  match state account with
  | none => .error .notPresent
  | some _ => .ok (Function.update state account none)

/-- What the processor of the event does to the potential validators. -/
def process (state : PotentialValidators) : Log → Except Error PotentialValidators
  | .validatorJoined account tokenID => .ok (addPotentialValidator state account (tokenID % 2 ^ 64))
  | .validatorLeft account _ => deletePotentialValidator state account
  | .validatorMinorSlashed account _ => deletePotentialValidator state account
  | .validatorMajorSlashed account => deletePotentialValidator state account
  | .other _ => .ok state
  | .unregistered _ => .ok state

structure Failure where
  block : ℕ
  index : ℕ
  error : Error
  deriving Repr, DecidableEq

/-- The place of a log: its block and its index there. -/
abbrev Place := ℕ × ℕ

def Failure.hits (failure : Option Failure) (place : Place) (log : Log) : Option Error :=
  match failure, log with
  | _, .unregistered _ => none
  | none, _ => none
  | some f, _ => if (f.block, f.index) = place then some f.error else none

def processEvents (failure : Option Failure) (block : ℕ) :
    (index : ℕ) → List Log → PotentialValidators → PotentialValidators × ℕ × Option Error
  | index, [], state => (state, index, none)
  | index, log :: logs, state =>
    match Failure.hits failure (block, index) log with
    | some err => (state, index, some err)
    | none => match process state log with
      | .error err => (state, index, some err)
      | .ok state => processEvents failure block (index + 1) logs state

structure Batch where
  state : PotentialValidators
  calls : List Place
  processed : Except Error ℕ

/-- The first `count` places of a block. -/
def places (block count : ℕ) : List Place := (List.range count).map fun index => (block, index)

def processBlocks (failure : Option Failure) : (processed : ℕ) → List (List Log) →
    PotentialValidators → Batch
  | processed, [], state => ⟨state, [], .ok processed⟩
  | processed, logs :: logsList, state =>
    let currentBlock := processed + 1
    match processEvents failure currentBlock 0 logs state with
    | (state, count, none) =>
      let rest := processBlocks failure currentBlock logsList state
      { rest with calls := places currentBlock count ++ rest.calls }
    | (state, count, some .deadlineExceeded) =>
      ⟨state, places currentBlock count, .ok (currentBlock - 1)⟩
    | (state, count, some err) => ⟨state, places currentBlock count, .error err⟩

structure MonitorState where
  communicationFailures : ℕ
  ethereumInSync : Bool
  highestBlockProcessed : ℕ
  highestBlockFinalized : ℕ
  endpointInSync : Bool
  peerCount : ℕ
  isInitialized : Bool
  potentialValidators : PotentialValidators

structure Config where
  endpointMinimumPeers : ℕ
  batchSize : ℕ

structure Tick where
  inSync : Bool
  peerCount : ℕ
  syncFails : Bool
  finalized : Option ℕ
  fetched : ℕ → Bool
  failure : Option Failure

def getLogsConcurrentWithSort (chain : ℕ → List Log) (fetched : ℕ → Bool)
    (processed lastBlock : ℕ) : List (List Log) :=
  ((List.range' (processed + 1) (lastBlock - processed)).takeWhile fetched).map chain

structure Outcome where
  state : MonitorState
  synchronized : Option Bool
  calls : List Place
  err : Option Error

def checkSync (s : MonitorState) (tick : Tick) : MonitorState :=
  let bmax := max s.highestBlockFinalized s.highestBlockProcessed
  let bmin := min s.highestBlockFinalized s.highestBlockProcessed
  { s with
    endpointInSync := tick.inSync
    ethereumInSync := decide (bmax - bmin < 2) && tick.inSync && s.isInitialized }

def countFailure (s : MonitorState) : MonitorState :=
  let failures := (s.communicationFailures + 1) % 2 ^ 32
  { s with
    communicationFailures := failures
    endpointInSync := if MonitorRetryCount ≤ failures then false else s.endpointInSync }

def recordEndpoint (s : MonitorState) (tick : Tick) (finalized : ℕ) : MonitorState :=
  { s with
    communicationFailures := 0
    peerCount := tick.peerCount
    endpointInSync := tick.inSync
    highestBlockFinalized := finalized
    isInitialized := true }

def lastBlock (batchSize processed finalized : ℕ) : ℕ :=
  if finalized - processed ≤ batchSize then processed + (finalized - processed) else
    processed + batchSize

def monitorTick (config : Config) (chain : ℕ → List Log) (before : MonitorState) (tick : Tick) :
    Outcome :=
  let s := checkSync before tick
  let synchronized := if before.ethereumInSync ≠ s.ethereumInSync then some s.ethereumInSync else
    none
  if tick.syncFails then ⟨countFailure s, synchronized, [], none⟩
  else if tick.peerCount < config.endpointMinimumPeers then ⟨s, synchronized, [], none⟩
  else match tick.finalized with
    | none => ⟨s, synchronized, [], some .failed⟩
    | some finalized =>
      let s := recordEndpoint s tick finalized
      let processed := s.highestBlockProcessed
      if finalized ≤ processed then ⟨s, synchronized, [], none⟩
      else
        let logsList :=
          getLogsConcurrentWithSort chain tick.fetched processed
            (lastBlock config.batchSize processed finalized)
        let batch := processBlocks tick.failure processed logsList s.potentialValidators
        let s := { s with potentialValidators := batch.state }
        match batch.processed with
        | .error err => ⟨s, synchronized, batch.calls, some err⟩
        | .ok processed => ⟨{ s with highestBlockProcessed := processed }, synchronized,
            batch.calls, none⟩

/-- A new monitor that starts behind a block. -/
def newMonitorState (startingBlock : ℕ) : MonitorState :=
  ⟨0, false, startingBlock, startingBlock, false, 0, false, fun _ => none⟩

end AliceNet.Layer1.Monitor
