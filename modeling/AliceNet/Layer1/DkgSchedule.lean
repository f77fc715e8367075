import AliceNet.Bridge.Ethdkg

/-! The tasks that a node schedules in a round of the key generation, against the windows of the
contract. -/

namespace AliceNet.Layer1.DkgSchedule

open Outcome
open Crypto (Curve)
open Bridge.Ethdkg

inductive Kind
  | Register
  | DisputeMissingRegistration
  | ShareDistribution
  | DisputeMissingShareDistribution
  | DisputeShareDistribution (address : Address)
  | KeyShareSubmission
  | DisputeMissingKeyShares
  | MPKSubmission
  | GPKjSubmission
  | DisputeMissingGPKj
  | DisputeGPKj (address : Address)
  | Completion
  deriving DecidableEq, Repr

structure Task where
  kind : Kind
  start : ℕ
  stop : ℕ
  /-- The nonce of the round in which it was scheduled, for reasoning only -/
  nonce : ℕ
  deriving DecidableEq, Repr

structure DkgState where
  phase : Phase
  phaseStart : ℕ
  phaseLength : ℕ
  confirmationLength : ℕ
  nonce : ℕ
  isValidator : Bool
  participants : List Address
  deriving DecidableEq, Repr

def plus (a b : ℕ) : ℕ := (a + b) % 2 ^ 64

namespace DkgState

def onRegistrationOpened (startBlock phaseLength confirmationLength nonce : ℕ)
    (isValidator : Bool) : DkgState :=
  ⟨.RegistrationOpen, startBlock, phaseLength, confirmationLength, nonce, isValidator, []⟩

section

variable (d : DkgState)

def onAddressRegistered (account : Address) : DkgState :=
  { d with participants := d.participants.filter (· ≠ account) ++ [account] }

def onRegistrationComplete (blockNumber : ℕ) : DkgState :=
  { d with phase := .ShareDistribution, phaseStart := plus blockNumber d.confirmationLength }

def onShareDistributionComplete (blockNumber : ℕ) : DkgState :=
  { d with phase := .DisputeShareDistribution, phaseStart := plus blockNumber d.confirmationLength }

def onKeyShareSubmitted : DkgState := { d with phase := .KeyShareSubmission }

def onKeyShareSubmissionComplete (blockNumber : ℕ) : DkgState :=
  { d with phase := .MPKSubmission, phaseStart := plus blockNumber d.confirmationLength }

def onMPKSet (blockNumber : ℕ) : DkgState :=
  { d with phase := .GPKJSubmission, phaseStart := blockNumber }

def onGPKJSubmissionComplete (blockNumber : ℕ) : DkgState :=
  { d with phase := .DisputeGPKJSubmission, phaseStart := plus blockNumber d.confirmationLength }

def after (d : DkgState) : ℕ → ℕ
  | 0 => d.phaseStart
  | count + 1 => plus (d.after count) d.phaseLength

def task (kind : Kind) (count : ℕ) : Task := ⟨kind, d.after count, d.after (count + 1), d.nonce⟩

def getDisputeShareDistributionTasks (count : ℕ) : List Task :=
  d.participants.map fun address => d.task (.DisputeShareDistribution address) count

def getDisputeGPKjTasks (count : ℕ) : List Task :=
  d.participants.map fun address => d.task (.DisputeGPKj address) count

end

end DkgState

def updateStateOnRegistrationOpened (startBlock phaseLength confirmationLength nonce : ℕ)
    (amIValidator : Bool) : DkgState × List Task :=
  let d := DkgState.onRegistrationOpened startBlock phaseLength confirmationLength nonce
    amIValidator
  (d, [d.task .Register 0, d.task .DisputeMissingRegistration 1])

def updateStateOnRegistrationComplete (d : DkgState) (blockNumber : ℕ) : DkgState × List Task :=
  let d := d.onRegistrationComplete blockNumber
  (d, [d.task .ShareDistribution 0, d.task .DisputeMissingShareDistribution 1] ++
    d.getDisputeShareDistributionTasks 1)

def updateStateOnShareDistributionComplete (d : DkgState) (blockNumber : ℕ) :
    DkgState × List Task :=
  let d := d.onShareDistributionComplete blockNumber
  (d, d.getDisputeShareDistributionTasks 0 ++ [d.task .KeyShareSubmission 1,
    d.task .DisputeMissingKeyShares 2])

def updateStateOnKeyShareSubmissionComplete (d : DkgState) (blockNumber : ℕ) :
    DkgState × List Task :=
  let d := d.onKeyShareSubmissionComplete blockNumber
  (d, [d.task .MPKSubmission 0])

def updateStateOnMPKSet (d : DkgState) (blockNumber : ℕ) : DkgState × List Task :=
  let d := d.onMPKSet blockNumber
  (d, [d.task .GPKjSubmission 0, d.task .DisputeMissingGPKj 1] ++ d.getDisputeGPKjTasks 1)

def updateStateOnGPKJSubmissionComplete (d : DkgState) (blockNumber : ℕ) : DkgState × List Task :=
  let d := d.onGPKJSubmissionComplete blockNumber
  (d, d.getDisputeGPKjTasks 0 ++ [d.task .Completion 1])

structure Node where
  dkgState : Option DkgState := none
  tasks : List Task := []

inductive Failure
  | keyNotFound
  deriving DecidableEq, Repr

def getDkgState (node : Node) : Except Failure DkgState :=
  match node.dkgState with
  | some d => .ok d
  | none => .error .keyNotFound

/-- Tasks are killed by their type. -/
def Kind.registering : Kind → Bool
  | .Register | .DisputeMissingRegistration => true
  | _ => false

def Kind.distributing : Kind → Bool
  | .ShareDistribution | .DisputeMissingShareDistribution | .DisputeShareDistribution _ => true
  | _ => false

def Kind.sharing : Kind → Bool
  | .KeyShareSubmission | .DisputeMissingKeyShares => true
  | _ => false

def Kind.mastering : Kind → Bool
  | .MPKSubmission => true
  | _ => false

def Kind.grouping : Kind → Bool
  | .GPKjSubmission | .DisputeMissingGPKj | .DisputeGPKj _ => true
  | _ => false

def processComplete (update : DkgState → ℕ → DkgState × List Task) (killed : Kind → Bool)
    (node : Node) (blockNumber : ℕ) : Except Failure Node := do
  let d ← getDkgState node
  if d.isValidator = false then pure node
  else
    let (d, tasks) := update d (blockNumber % 2 ^ 64)
    pure ⟨some d, node.tasks.filter (fun task => !killed task.kind) ++ tasks⟩

def processRegistrationOpened (amIValidator : Bool) (node : Node)
    (startBlock nonce phaseLength confirmationLength : ℕ) : Node :=
  let (d, tasks) :=
    updateStateOnRegistrationOpened (startBlock % 2 ^ 64) phaseLength confirmationLength nonce
    amIValidator
  ⟨some d, if d.isValidator = false then node.tasks else node.tasks ++ tasks⟩

def processAddressRegistered (node : Node) (account : Address) : Except Failure Node := do
  let d ← getDkgState node
  pure { node with dkgState := some (d.onAddressRegistered account) }

def processRegistrationComplete : Node → ℕ → Except Failure Node :=
  processComplete updateStateOnRegistrationComplete Kind.registering

def processShareDistributionComplete : Node → ℕ → Except Failure Node :=
  processComplete updateStateOnShareDistributionComplete Kind.distributing

def processKeyShareSubmitted (node : Node) : Except Failure Node := do
  let d ← getDkgState node
  pure { node with dkgState := some d.onKeyShareSubmitted }

def processKeyShareSubmissionComplete : Node → ℕ → Except Failure Node :=
  processComplete updateStateOnKeyShareSubmissionComplete Kind.sharing

def processMPKSet : Node → ℕ → Except Failure Node :=
    processComplete updateStateOnMPKSet Kind.mastering

def processGPKJSubmissionComplete : Node → ℕ → Except Failure Node :=
  processComplete updateStateOnGPKJSubmissionComplete Kind.grouping

def process (amIValidator : ℕ → Bool) (node : Node) : Event → Except Failure Node
  | .RegistrationOpened startBlock _ nonce phaseLength confirmationLength =>
    pure (processRegistrationOpened (amIValidator nonce) node startBlock nonce phaseLength
      confirmationLength)
  | .AddressRegistered account _ _ _ => processAddressRegistered node account
  | .RegistrationComplete blockNumber => processRegistrationComplete node blockNumber
  | .ShareDistributionComplete blockNumber => processShareDistributionComplete node blockNumber
  | .KeyShareSubmitted .. => processKeyShareSubmitted node
  | .KeyShareSubmissionComplete blockNumber => processKeyShareSubmissionComplete node blockNumber
  | .MPKSet blockNumber _ _ => processMPKSet node blockNumber
  | .GPKJSubmissionComplete blockNumber => processGPKJSubmissionComplete node blockNumber
  | _ => pure node

def processAll (amIValidator : ℕ → Bool) (node : Node) (events : List Event) :
    Except Failure Node :=
  events.foldlM (process amIValidator) node

def Kind.guard (w : World) : Kind → Except Revert Unit
  | .Register => submissionWindow w .RegistrationOpen
  | .DisputeMissingRegistration => accusationWindow w .RegistrationOpen
  | .ShareDistribution => submissionWindow w .ShareDistribution
  | .DisputeMissingShareDistribution => accusationWindow w .ShareDistribution
  | .DisputeShareDistribution _ => disputeWindow w .DisputeShareDistribution .ShareDistribution
  | .KeyShareSubmission => do
    let _ ← openKeyShareSubmission w
  | .DisputeMissingKeyShares => accusationWindow w .KeyShareSubmission
  | .MPKSubmission => submissionWindow w .MPKSubmission
  | .GPKjSubmission => submissionWindow w .GPKJSubmission
  | .DisputeMissingGPKj => accusationWindow w .GPKJSubmission
  | .DisputeGPKj _ => disputeWindow w .DisputeGPKJSubmission .GPKJSubmission
  | .Completion => do
    accusationWindow w .DisputeGPKJSubmission
    require (w.dkg.badParticipants = 0) .ETHDKGRequisitesIncomplete

end AliceNet.Layer1.DkgSchedule
