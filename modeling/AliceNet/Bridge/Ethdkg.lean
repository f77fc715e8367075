import AliceNet.Library.Word
import AliceNet.Bridge.CryptoLibrary

/-! The contract of the distributed key generation: its phases and the accusations. -/

namespace AliceNet.Bridge.Ethdkg

open Outcome (require)
open Crypto (Curve Point Twist)
open Crypto.CryptoLibrary

abbrev Address := ℕ

inductive Phase
  | RegistrationOpen
  | ShareDistribution
  | DisputeShareDistribution
  | KeyShareSubmission
  | MPKSubmission
  | GPKJSubmission
  | DisputeGPKJSubmission
  | Completion
  deriving DecidableEq, Repr

structure Participant where
  publicKey : Point := (0, 0)
  nonce : ℕ := 0
  index : ℕ := 0
  phase : Phase := .RegistrationOpen
  distributedSharesHash : Bytes32 := 0
  commitmentsFirstCoefficient : Point := (0, 0)
  keyShares : Point := (0, 0)
  gpkj : Twist := (0, 0, 0, 0)
  deriving DecidableEq, Repr

structure PhaseInformation where
  phase : Phase
  startBlock : ℕ
  endBlock : ℕ
  deriving DecidableEq, Repr

inductive Revert
  | OnlyValidatorsAllowed (sender : Address)
  | MinimumValidatorsNotMet (currentValidatorsLength : ℕ)
  | IncorrectPhase (currentPhase : Phase) (currentBlockNumber : ℕ)
      (expectedPhases : List PhaseInformation)
  | AccusedNotValidator (accused : Address)
  | AccusedParticipatingInRound (accused : Address)
  | AccusedNotParticipatingInRound (accused : Address)
  | AccusedDistributedSharesInRound (accused : Address)
  | AccusedHasCommitments (accused : Address)
  | DisputerNotParticipatingInRound (disputer : Address)
  | AccusedDidNotDistributeSharesInRound (accused : Address)
  | DisputerDidNotDistributeSharesInRound (disputer : Address)
  | SharesAndCommitmentsMismatch (expected actual : Bytes32)
  | InvalidKeyOrProof
  | AccusedSubmittedSharesInRound (accused : Address)
  | AccusedDidNotParticipateInGPKJSubmission (accused : Address)
  | AccusedDistributedGPKJ (accused : Address)
  | AccusedDidNotSubmitGPKJInRound (accused : Address)
  | DisputerDidNotSubmitGPKJInRound (disputer : Address)
  | ArgumentsLengthDoesNotEqualNumberOfParticipants
      (validatorsLength encryptedSharesHashLength commitmentsLength numParticipants : ℕ)
  | InvalidCommitments (commitmentsLength expectedCommitmentsLength : ℕ)
  | InvalidOrDuplicatedParticipant (participant : Address)
  | InvalidSharesOrCommitments (expectedHash actualHash : Bytes32)
  | PublicKeyZero
  | PublicKeyNotOnCurve
  | ParticipantParticipatingInRound (participant : Address) (participantNonce maxExpectedNonce : ℕ)
  | InvalidNonce (participantNonce nonce : ℕ)
  | ParticipantDistributedSharesInRound (participant : Address)
  | InvalidEncryptedSharesAmount (sharesLength expectedSharesLength : ℕ)
  | InvalidCommitmentsAmount (commitmentsLength expectedCommitmentsLength : ℕ)
  | CommitmentNotOnCurve
  | CommitmentZero
  | DistributedShareHashZero
  | ParticipantSubmittedKeysharesInRound (participant : Address)
  | InvalidKeyshareG1
  | InvalidKeyshareG2
  | MasterPublicKeyPairingCheckFailure
  | ParticipantSubmittedGPKJInRound (participant : Address)
  | GPKJZero
  | ETHDKGRequisitesIncomplete
  | OnlyValidatorPool (sender expected : Address)
  | OnlyFactory (sender expected : Address)
  | ETHDKGRoundRunning
  | ConsensusRunning
  | MinimumBlockIntervalNotMet (currentBlockNumber targetBlockNumber : ℕ)
  | VariableNotSettableWhileETHDKGRunning
  | crypto (reason : CryptoLibraryErrors)
  /-- A call to another contract reverts. -/
  | external (reason : String)
  | panic (code : ℕ)
  deriving DecidableEq, Repr

inductive Event
  | RegistrationOpened (startBlock numberValidators nonce phaseLength confirmationLength : ℕ)
  | AddressRegistered (account : Address) (index nonce : ℕ) (publicKey : Point)
  | RegistrationComplete (blockNumber : ℕ)
  | SharesDistributed (account : Address) (index nonce : ℕ) (encryptedShares : List ℕ)
      (commitments : List Point)
  | ShareDistributionComplete (blockNumber : ℕ)
  | KeyShareSubmitted (account : Address) (index nonce : ℕ)
      (keyShareG1 keyShareG1CorrectnessProof : Point)
      (keyShareG2 : Twist)
  | KeyShareSubmissionComplete (blockNumber : ℕ)
  | MPKSet (blockNumber nonce : ℕ) (mpk : Twist)
  | GPKJSubmissionComplete (blockNumber : ℕ)
  | ValidatorMemberAdded (account : Address) (index nonce epoch : ℕ) (share : Twist)
  | ValidatorSetCompleted (validatorCount nonce epoch ethHeight aliceNetHeight : ℕ)
      (groupKey : Twist)
  /-- The following ones are events of the validator pool. -/
  | ValidatorJoined (account : Address)
  | ValidatorLeft (account : Address)
  | ValidatorMajorSlashed (account : Address)
  | ValidatorMinorSlashed (account : Address)
  deriving DecidableEq, Repr

def MIN_VALIDATORS : ℕ := 4

structure Storage where
  nonce : ℕ := 0
  phaseStartBlock : ℕ := 0
  ethdkgPhase : Phase := .RegistrationOpen
  numParticipants : ℕ := 0
  badParticipants : ℕ := 0
  phaseLength : ℕ
  confirmationLength : ℕ
  customAliceNetHeight : ℕ := 0
  masterPublicKey : Twist := (0, 0, 0, 0)
  mpkG1 : Point := (0, 0)
  masterPublicKeyHash : Bytes32 := 0
  participants : Address → Participant := fun _ => {}

/-- The contract with what it sees of the pool and the snapshots. -/
structure World where
  dkg : Storage
  validators : Finset Address
  /-- The accounts that the pool has slashed since the round was opened, for reasoning only. -/
  slashed : Finset Address
  isConsensusRunning : Bool
  epoch : ℕ
  number : ℕ
  events : List Event

structure Contract where
  factory : Address
  validatorPool : Address

/-- A call's context, with what other contracts and accounts do during it. -/
structure Msg where
  sender : Address
  /-- Whether the pool can burn the account's stake and pay for it. -/
  slashable : Address → Bool
  /-- What the account that is paid for a slashing does when it gets control. -/
  received : World → World
  getCommittedHeightFromLatestSnapshot : ℕ
  getAliceNetHeightFromLatestSnapshot : ℕ
  /-- A setting of the pool -/
  maxIntervalWithoutSnapshots : ℕ

section

variable (contract : Contract) (curve : Curve) (s : Storage) (w : World) (msg : Msg)

def World.emit (event : Event) : World := { w with events := w.events ++ [event] }

abbrev World.participant (account : Address) : Participant := w.dkg.participants account

def World.setParticipant (account : Address) (participant : Participant) : World :=
  { w with dkg := { w.dkg with
    participants := Function.update w.dkg.participants account participant } }

def World.setBadParticipants (badParticipants : ℕ) : World :=
  { w with dkg := { w.dkg with badParticipants } }

def add64 : ℕ → ℕ → Except Revert ℕ := Word.add 64 (.panic 0x11)

def phaseEnd : Except Revert ℕ := add64 s.phaseStartBlock s.phaseLength

/-- Twice the length is computed in sixteen bits. -/
def disputeEnd : Except Revert ℕ := do
  let double ← Word.mul 16 (.panic 0x11) 2 s.phaseLength
  add64 s.phaseStartBlock double

/-- The guard of a submission: the first window of its phase. -/
def submissionWindow (phase : Phase) : Except Revert Unit := do
  let stop ← phaseEnd w.dkg
  require (w.dkg.ethdkgPhase = phase ∧ w.dkg.phaseStartBlock ≤ w.number ∧ w.number < stop)
    (.IncorrectPhase w.dkg.ethdkgPhase w.number [⟨phase, w.dkg.phaseStartBlock, stop⟩])

def accusationWindow (phase : Phase) : Except Revert Unit := do
  let opened ← phaseEnd w.dkg
  let stop ← disputeEnd w.dkg
  require (w.dkg.ethdkgPhase = phase ∧ opened ≤ w.number ∧ w.number < stop)
    (.IncorrectPhase w.dkg.ethdkgPhase w.number [⟨phase, opened, stop⟩])

def disputeWindow (dispute submission : Phase) : Except Revert Unit := do
  let opened ← phaseEnd w.dkg
  if w.dkg.ethdkgPhase = dispute ∧ w.dkg.phaseStartBlock ≤ w.number ∧ w.number < opened then
    pure ()
  else
    let stop ← disputeEnd w.dkg
    require (w.dkg.ethdkgPhase = submission ∧ opened ≤ w.number ∧ w.number < stop)
      (.IncorrectPhase w.dkg.ethdkgPhase w.number
        [⟨dispute, w.dkg.phaseStartBlock, opened⟩, ⟨submission, opened, stop⟩])

def isETHDKGCompleted : Bool := s.ethdkgPhase = .Completion

def isETHDKGHalted (number : ℕ) : Except Revert Bool := do
  let failedInDisputePhase ←
    if s.ethdkgPhase = .DisputeShareDistribution ∨ s.ethdkgPhase = .DisputeGPKJSubmission then do
      let stop ← phaseEnd s
      pure (decide (stop ≤ number ∧ s.badParticipants ≠ 0))
    else pure false
  let stop ← disputeEnd s
  pure (decide (stop ≤ number) || failedInDisputePhase)

def isETHDKGRunning (number : ℕ) : Except Revert Bool :=
  if s.phaseStartBlock = 0 then pure false
  else if isETHDKGCompleted s then pure false
  else do pure (!(← isETHDKGHalted s number))

/-- `t + 1` is more than two thirds of the participants. -/
def getThreshold (numParticipants : ℕ) : ℕ :=
  let quotient := numParticipants / 3
  let threshold := 2 * quotient
  if numParticipants - 3 * quotient = 2 then threshold + 1 else threshold

def setPhase (phase : Phase) : World :=
  { w with dkg := { w.dkg with
    ethdkgPhase := phase, phaseStartBlock := w.number % 2 ^ 64, numParticipants := 0 } }

def moveToNextPhase (phase : Phase) (numValidators numParticipants : ℕ) :
    Except Revert (World × Bool) :=
  if numParticipants = numValidators then do
    let w := setPhase w phase
    let phaseStartBlock ← add64 w.dkg.phaseStartBlock w.dkg.confirmationLength
    pure ({ w with dkg := { w.dkg with phaseStartBlock } }, true)
  else
    pure ({ w with dkg := { w.dkg with numParticipants := numParticipants % 2 ^ 32 } }, false)

/-- Moves on after a submission and says so in `event`. -/
def closeSubmission (phase : Phase) (numParticipants : ℕ) (event : Event) :
    Except Revert World := do
  let (w, moved) ← moveToNextPhase w phase w.validators.card numParticipants
  pure (if moved then w.emit event else w)

def initializeETHDKG : Except Revert World := do
  require (msg.sender = contract.validatorPool)
    (.OnlyValidatorPool msg.sender contract.validatorPool)
  let numberValidators := w.validators.card
  require (MIN_VALIDATORS ≤ numberValidators) (.MinimumValidatorsNotMet numberValidators)
  let nonce ← add64 w.dkg.nonce 1
  let dkg := { w.dkg with
    phaseStartBlock := w.number % 2 ^ 64
    nonce
    numParticipants := 0
    badParticipants := 0
    ethdkgPhase := .RegistrationOpen }
  pure ({ w with dkg, slashed := ∅ }.emit
    (.RegistrationOpened w.number numberValidators nonce dkg.phaseLength dkg.confirmationLength))

/-- The pool's entry to `initializeETHDKG` -/
def ValidatorPool.initializeETHDKG : Except Revert World := do
  require (msg.sender = contract.factory) (.OnlyFactory msg.sender contract.factory)
  let running ← isETHDKGRunning w.dkg w.number
  require (running = false) .ETHDKGRoundRunning
  require (w.isConsensusRunning = false) .ConsensusRunning
  Ethdkg.initializeETHDKG contract w { msg with sender := contract.validatorPool }

def setCustomAliceNetHeight (aliceNetHeight : ℕ) : Except Revert World := do
  require (msg.sender = contract.validatorPool)
    (.OnlyValidatorPool msg.sender contract.validatorPool)
  pure ({ w with dkg := { w.dkg with customAliceNetHeight := aliceNetHeight } }.emit
    (.ValidatorSetCompleted 0 w.dkg.nonce w.epoch msg.getCommittedHeightFromLatestSnapshot
      aliceNetHeight (0, 0, 0, 0)))

def ValidatorPool.pauseConsensusOnArbitraryHeight (aliceNetHeight : ℕ) : Except Revert World := do
  require (msg.sender = contract.factory) (.OnlyFactory msg.sender contract.factory)
  let targetBlockNumber ← Word.add 256 (.panic 0x11) msg.getCommittedHeightFromLatestSnapshot
    msg.maxIntervalWithoutSnapshots
  require (targetBlockNumber < w.number) (.MinimumBlockIntervalNotMet w.number targetBlockNumber)
  setCustomAliceNetHeight contract { w with isConsensusRunning := false }
    { msg with sender := contract.validatorPool } aliceNetHeight

def onlyValidator : Except Revert Unit :=
  require (msg.sender ∈ w.validators) (.OnlyValidatorsAllowed msg.sender)

def assertNotParticipating : Except Revert Unit :=
  if w.dkg.nonce ≤ (w.participant msg.sender).nonce then do
    let maxExpectedNonce ← Word.sub (.panic 0x11) w.dkg.nonce 1
    .error (.ParticipantParticipatingInRound msg.sender (w.participant msg.sender).nonce
      maxExpectedNonce)
  else pure ()

def register (publicKey : Point) : Except Revert World := do
  onlyValidator w msg
  submissionWindow w .RegistrationOpen
  require (publicKey.1 ≠ 0 ∧ publicKey.2 ≠ 0) .PublicKeyZero
  require (bn128IsOnCurve publicKey = true) .PublicKeyNotOnCurve
  assertNotParticipating w msg
  let numRegistered ← Word.add 32 (.panic 0x11) w.dkg.numParticipants 1
  let w := w.setParticipant msg.sender
    { publicKey, index := numRegistered, nonce := w.dkg.nonce, phase := w.dkg.ethdkgPhase }
  let w := w.emit (.AddressRegistered msg.sender numRegistered w.dkg.nonce publicKey)
  closeSubmission w .ShareDistribution numRegistered (.RegistrationComplete w.number)

def hashShares (encryptedShares : List ℕ) (commitments : List Point) : Bytes32 :=
  curve.keccak256
    ((curve.keccak256 (encodeWords encryptedShares)).toBytes ++
      (curve.keccak256 (encodePoints commitments)).toBytes)

def distributeShares (encryptedShares : List ℕ) (commitments : List Point) :
    Except Revert World := do
  onlyValidator w msg
  submissionWindow w .ShareDistribution
  let participant := w.participant msg.sender
  require (participant.nonce = w.dkg.nonce) (.InvalidNonce participant.nonce w.dkg.nonce)
  require (participant.phase = .RegistrationOpen) (.ParticipantDistributedSharesInRound msg.sender)
  let numValidators := w.validators.card
  let threshold := getThreshold numValidators
  let expectedShares ← Word.sub (.panic 0x11) numValidators 1
  require (encryptedShares.length = expectedShares)
    (.InvalidEncryptedSharesAmount encryptedShares.length expectedShares)
  require (commitments.length = threshold + 1) (.InvalidCommitmentsAmount commitments.length
    (threshold + 1))
  commitments.forM fun commitment => do
    require (bn128IsOnCurve commitment = true) .CommitmentNotOnCurve
    require (commitment.1 ≠ 0) .CommitmentZero
  let distributedSharesHash := hashShares curve encryptedShares commitments
  require (distributedSharesHash ≠ 0) .DistributedShareHashZero
  let participant := { participant with
    distributedSharesHash
    commitmentsFirstCoefficient := commitments.headD (0, 0)
    phase := .ShareDistribution }
  let w := w.setParticipant msg.sender participant
  let numParticipants ← Word.add 32 (.panic 0x11) w.dkg.numParticipants 1
  let w := w.emit (.SharesDistributed msg.sender participant.index participant.nonce encryptedShares
    commitments)
  closeSubmission w .DisputeShareDistribution numParticipants (.ShareDistributionComplete w.number)

def openKeyShareSubmission : Except Revert World := do
  let opened ← phaseEnd w.dkg
  if w.dkg.ethdkgPhase = .KeyShareSubmission ∧ w.dkg.phaseStartBlock ≤ w.number ∧
    w.number < opened then
    pure w
  else
    let stop ← disputeEnd w.dkg
    require (w.dkg.ethdkgPhase = .DisputeShareDistribution ∧ opened ≤ w.number ∧ w.number < stop ∧
        w.dkg.badParticipants = 0)
      (.IncorrectPhase w.dkg.ethdkgPhase w.number
        [⟨.KeyShareSubmission, w.dkg.phaseStartBlock, opened⟩,
          ⟨.DisputeShareDistribution, opened, stop⟩])
    pure (setPhase w .KeyShareSubmission)

def submitKeyShare (keyShareG1 keyShareG1CorrectnessProof : Point) (keyShareG2 : Twist) :
    Except Revert World := do
  onlyValidator w msg
  let w ← openKeyShareSubmission w
  let participant := w.participant msg.sender
  require (participant.nonce = w.dkg.nonce) (.InvalidNonce participant.nonce w.dkg.nonce)
  require (participant.phase = .ShareDistribution)
    (.ParticipantSubmittedKeysharesInRound msg.sender)
  let equal ← (discreteLogEquality curve H1 keyShareG1 G1 participant.commitmentsFirstCoefficient
    keyShareG1CorrectnessProof).mapError .crypto
  require (equal = true) .InvalidKeyshareG1
  let paired ← (bn128CheckPairing curve keyShareG1 H2 H1 keyShareG2).mapError .crypto
  require (paired = true) .InvalidKeyshareG2
  let participant := { participant with keyShares := keyShareG1, phase := .KeyShareSubmission }
  let w := w.setParticipant msg.sender participant
  let numParticipants ← Word.add 32 (.panic 0x11) w.dkg.numParticipants 1
  -- what is left of an earlier round is not added to
  let mpkG1 := if 1 < numParticipants then w.dkg.mpkG1 else (0, 0)
  let mpkG1 ← (bn128Add curve mpkG1 participant.keyShares).mapError .crypto
  let w := { w with dkg := { w.dkg with mpkG1 } }
  let w := w.emit (.KeyShareSubmitted msg.sender participant.index participant.nonce keyShareG1
    keyShareG1CorrectnessProof keyShareG2)
  closeSubmission w .MPKSubmission numParticipants (.KeyShareSubmissionComplete w.number)

def submitMasterPublicKey (_msg : Msg) (masterPublicKey : Twist) : Except Revert World := do
  submissionWindow w .MPKSubmission
  let paired ← (bn128CheckPairing curve w.dkg.mpkG1 H2 H1 masterPublicKey).mapError .crypto
  require (paired = true) .MasterPublicKeyPairingCheckFailure
  let (k0, k1, k2, k3) := masterPublicKey
  let masterPublicKeyHash := curve.keccak256 (encodeWords [k0, k1, k2, k3])
  let w := setPhase { w with dkg := { w.dkg with masterPublicKey, masterPublicKeyHash } }
    .GPKJSubmission
  pure (w.emit (.MPKSet w.number w.dkg.nonce masterPublicKey))

def submitGPKJ (gpkj : Twist) : Except Revert World := do
  onlyValidator w msg
  submissionWindow w .GPKJSubmission
  let participant := w.participant msg.sender
  require (participant.nonce = w.dkg.nonce) (.InvalidNonce participant.nonce w.dkg.nonce)
  require (participant.phase = .KeyShareSubmission) (.ParticipantSubmittedGPKJInRound msg.sender)
  require (gpkj ≠ (0, 0, 0, 0)) .GPKJZero
  let participant := { participant with gpkj, phase := .GPKJSubmission }
  let w := w.setParticipant msg.sender participant
  let w := w.emit (.ValidatorMemberAdded msg.sender participant.index participant.nonce w.epoch
    participant.gpkj)
  let numParticipants ← Word.add 32 (.panic 0x11) w.dkg.numParticipants 1
  closeSubmission w .DisputeGPKJSubmission numParticipants (.GPKJSubmissionComplete w.number)

def complete : Except Revert World := do
  onlyValidator w msg
  accusationWindow w .DisputeGPKJSubmission
  require (w.dkg.badParticipants = 0) .ETHDKGRequisitesIncomplete
  let w := { setPhase w .Completion with isConsensusRunning := true }
  let aliceNetHeight := if w.dkg.customAliceNetHeight = 0 then
    msg.getAliceNetHeightFromLatestSnapshot else w.dkg.customAliceNetHeight
  let w := { w with dkg := { w.dkg with customAliceNetHeight := 0 } }
  pure (w.emit (.ValidatorSetCompleted (w.validators.card % 2 ^ 8) w.dkg.nonce w.epoch
    msg.getCommittedHeightFromLatestSnapshot aliceNetHeight w.dkg.masterPublicKey))

def slash (dishonest : Address) (event : Event) : Except Revert World := do
  require (msg.slashable dishonest = true) (.external "slash")
  let w := msg.received { w with
    validators := w.validators.erase dishonest
    slashed := insert dishonest w.slashed }
  pure (w.emit event)

def majorSlash (dishonest : Address) : Except Revert World :=
  slash w msg dishonest (.ValidatorMajorSlashed dishonest)

def minorSlash (dishonest : Address) : Except Revert World :=
  slash w msg dishonest (.ValidatorMinorSlashed dishonest)

def accuseEach (msg : Msg) (check : World → Address → Except Revert Unit) :
    List Address → World → ℕ → Except Revert (World × ℕ)
  | [], w, badParticipants => pure (w, badParticipants)
  | dishonest :: rest, w, badParticipants => do
    require (dishonest ∈ w.validators) (.AccusedNotValidator dishonest)
    check w dishonest
    let w ← minorSlash w msg dishonest
    let badParticipants ← Word.add 16 (.panic 0x11) badParticipants 1
    accuseEach msg check rest w badParticipants

def accuseAll (phase : Phase) (check : World → Address → Except Revert Unit)
    (dishonestAddresses : List Address) : Except Revert World := do
  accusationWindow w phase
  let (w, badParticipants) ← accuseEach msg check dishonestAddresses w w.dkg.badParticipants
  pure (w.setBadParticipants badParticipants)

def checkNotRegistered (dishonest : Address) : Except Revert Unit :=
  require ((w.participant dishonest).nonce ≠ w.dkg.nonce) (.AccusedParticipatingInRound dishonest)

def accuseParticipantNotRegistered (dishonestAddresses : List Address) : Except Revert World :=
  accuseAll w msg .RegistrationOpen checkNotRegistered dishonestAddresses

def checkDidNotDistributeShares (dishonest : Address) : Except Revert Unit := do
  let participant := w.participant dishonest
  require (participant.nonce = w.dkg.nonce) (.AccusedNotParticipatingInRound dishonest)
  require (participant.phase ≠ .ShareDistribution) (.AccusedDistributedSharesInRound dishonest)
  require (participant.distributedSharesHash = 0) (.AccusedDistributedSharesInRound dishonest)
  require (participant.commitmentsFirstCoefficient = (0, 0)) (.AccusedHasCommitments dishonest)

def accuseParticipantDidNotDistributeShares (dishonestAddresses : List Address) :
    Except Revert World :=
  accuseAll w msg .ShareDistribution checkDidNotDistributeShares dishonestAddresses

def checkDidNotSubmitKeyShares (dishonest : Address) : Except Revert Unit := do
  let participant := w.participant dishonest
  require (participant.nonce = w.dkg.nonce) (.AccusedNotParticipatingInRound dishonest)
  require (participant.phase ≠ .KeyShareSubmission) (.AccusedSubmittedSharesInRound dishonest)
  require (participant.keyShares = (0, 0)) (.AccusedSubmittedSharesInRound dishonest)

def accuseParticipantDidNotSubmitKeyShares (dishonestAddresses : List Address) :
    Except Revert World :=
  accuseAll w msg .KeyShareSubmission checkDidNotSubmitKeyShares dishonestAddresses

def checkDidNotSubmitGPKJ (dishonest : Address) : Except Revert Unit := do
  let participant := w.participant dishonest
  require (participant.nonce = w.dkg.nonce) (.AccusedNotParticipatingInRound dishonest)
  require (participant.phase ≠ .GPKJSubmission)
    (.AccusedDidNotParticipateInGPKJSubmission dishonest)
  require (participant.gpkj = (0, 0, 0, 0)) (.AccusedDistributedGPKJ dishonest)

def accuseParticipantDidNotSubmitGPKJ (dishonestAddresses : List Address) : Except Revert World :=
  accuseAll w msg .GPKJSubmission checkDidNotSubmitGPKJ dishonestAddresses

def arrayAt {α : Type} (items : List α) (i : ℕ) : Except Revert α :=
  match items[i]? with
  | some item => .ok item
  | none => .error (.panic 0x32)

/-- The terms from the second power of `index` on -/
def addPowers (index : ℕ) : List Point → (x : ℕ) → (result : Point) →
    Except CryptoLibraryErrors Point
  | [], _, result => pure result
  | commitment :: rest, x, result => do
    let x := mulmod x index GROUP_ORDER
    let tmp ← bn128Multiply curve commitment x
    let result ← bn128Add curve result tmp
    addPowers index rest x result

/-- The polynomial that the commitments define, at `index` -/
def evaluateCommitments (commitments : List Point) (index : ℕ) : Except Revert Point := do
  let constant ← arrayAt commitments 0
  let linear ← arrayAt commitments 1
  let tmp ← (bn128Multiply curve linear index).mapError .crypto
  let result ← (bn128Add curve constant tmp).mapError .crypto
  (addPowers curve index (commitments.drop 2) index result).mapError .crypto

def decryptedShare (encryptedShares : List ℕ) (disputerIndex dishonestIndex sharedKeyX : ℕ) :
    Except Revert ℕ := do
  let position ← Word.sub (.panic 0x11) disputerIndex (if disputerIndex < dishonestIndex then 1 else
    2)
  let share ← arrayAt encryptedShares position
  pure (share ^^^
    (curve.keccak256 (Bytes.bigEndian 32 sharedKeyX ++ Bytes.bigEndian 8 disputerIndex)).toNat)

def accuseParticipantDistributedBadShares (dishonestAddress : Address) (encryptedShares : List ℕ)
    (commitments : List Point) (sharedKey sharedKeyCorrectnessProof : Point) :
    Except Revert World := do
  onlyValidator w msg
  disputeWindow w .DisputeShareDistribution .ShareDistribution
  require (dishonestAddress ∈ w.validators) (.AccusedNotValidator dishonestAddress)
  let dishonestParticipant := w.participant dishonestAddress
  let disputer := w.participant msg.sender
  require (disputer.nonce = w.dkg.nonce) (.DisputerNotParticipatingInRound msg.sender)
  require (dishonestParticipant.nonce = w.dkg.nonce)
    (.AccusedNotParticipatingInRound dishonestAddress)
  require (dishonestParticipant.phase = .ShareDistribution)
    (.AccusedDidNotDistributeSharesInRound dishonestAddress)
  require (disputer.phase = .ShareDistribution) (.DisputerDidNotDistributeSharesInRound msg.sender)
  require (dishonestParticipant.distributedSharesHash =
    hashShares curve encryptedShares commitments)
    (.SharesAndCommitmentsMismatch dishonestParticipant.distributedSharesHash
      (hashShares curve encryptedShares commitments))
  let equal ← (discreteLogEquality curve G1 disputer.publicKey dishonestParticipant.publicKey
    sharedKey sharedKeyCorrectnessProof).mapError .crypto
  require (equal = true) .InvalidKeyOrProof
  let share ← decryptedShare curve encryptedShares disputer.index dishonestParticipant.index
    sharedKey.1
  let result ← evaluateCommitments curve commitments disputer.index
  let tmp ← (bn128Multiply curve G1 share).mapError .crypto
  -- someone is slashed in any case
  let w ← majorSlash w msg (if result ≠ tmp then dishonestAddress else msg.sender)
  let badParticipants ← Word.add 16 (.panic 0x11) w.dkg.badParticipants 1
  pure (w.setBadParticipants badParticipants)

def checkParticipants (w : World) (threshold : ℕ) :
    List (Address × Bytes32 × List Point) → (bitMap : ℕ) → Except Revert Unit
  | [], _ => pure ()
  | (validator, encryptedSharesHash, commitments) :: rest, bitMap => do
    require (commitments.length = threshold + 1)
      (.InvalidCommitments commitments.length (threshold + 1))
    let participant := w.participant validator
    require (participant.nonce = w.dkg.nonce ∧ participant.index ≤ 255 ∧
      bitMap.testBit participant.index = false) (.InvalidOrDuplicatedParticipant validator)
    let hash :=
      curve.keccak256 (encryptedSharesHash.toBytes ++
      (curve.keccak256 (encodePoints commitments)).toBytes)
    require (participant.distributedSharesHash = hash)
      (.InvalidSharesOrCommitments participant.distributedSharesHash hash)
    checkParticipants w threshold rest (bitMap ||| 1 <<< participant.index)

/-- The sum of everyone's coefficient of degree `k` -/
def sumCoefficients (commitments : List (List Point)) (k : ℕ) : Except Revert Point := do
  let row ← arrayAt commitments 0
  let first ← arrayAt row k
  (commitments.drop 1).foldlM (fun tmp row => do
    let coefficient ← arrayAt row k
    (bn128Add curve tmp coefficient).mapError .crypto) first

/-- The terms of the degrees `k`, `k + 1`, … of the group's polynomial -/
def addDegrees (commitments : List (List Point)) (index : ℕ) :
    (count k pow : ℕ) → (gpkjStar : Point) → Except Revert Point
  | 0, _, _, gpkjStar => pure gpkjStar
  | count + 1, k, pow, gpkjStar => do
    let pow := mulmod pow index GROUP_ORDER
    let tmp ← sumCoefficients curve commitments k
    let tmp ← (bn128Multiply curve tmp pow).mapError .crypto
    let gpkjStar ← (bn128Add curve gpkjStar tmp).mapError .crypto
    addDegrees commitments index count (k + 1) pow gpkjStar

def computeGpkjStar (commitments : List (List Point)) (index threshold : ℕ) :
    Except Revert Point := do
  let constant ← sumCoefficients curve commitments 0
  let linear ← sumCoefficients curve commitments 1
  let tmp ← (bn128Multiply curve linear index).mapError .crypto
  let gpkjStar ← (bn128Add curve constant tmp).mapError .crypto
  addDegrees curve commitments index (threshold - 1) 2 index gpkjStar

def accuseParticipantSubmittedBadGPKJ (validators : List Address)
    (encryptedSharesHash : List Bytes32) (commitments : List (List Point))
    (dishonestAddress : Address) : Except Revert World := do
  onlyValidator w msg
  disputeWindow w .DisputeGPKJSubmission .GPKJSubmission
  require (dishonestAddress ∈ w.validators) (.AccusedNotValidator dishonestAddress)
  let dishonestParticipant := w.participant dishonestAddress
  let disputer := w.participant msg.sender
  require (dishonestParticipant.nonce = w.dkg.nonce ∧ dishonestParticipant.phase = .GPKJSubmission)
    (.AccusedDidNotSubmitGPKJInRound dishonestAddress)
  require (disputer.nonce = w.dkg.nonce ∧ disputer.phase = .GPKJSubmission)
    (.DisputerDidNotSubmitGPKJInRound msg.sender)
  let badParticipants := w.dkg.badParticipants
  let numParticipants := w.validators.card + badParticipants
  let threshold := getThreshold numParticipants
  require (validators.length = numParticipants ∧ encryptedSharesHash.length = numParticipants ∧
      commitments.length = numParticipants)
    (.ArgumentsLengthDoesNotEqualNumberOfParticipants validators.length encryptedSharesHash.length
      commitments.length numParticipants)
  checkParticipants curve w threshold (validators.zip (encryptedSharesHash.zip commitments)) 0
  let gpkjStar ← computeGpkjStar curve commitments dishonestParticipant.index threshold
  let isValid ← (bn128CheckPairing curve gpkjStar H2 G1 dishonestParticipant.gpkj).mapError .crypto
  let w ← majorSlash w msg (if isValid = false then dishonestAddress else msg.sender)
  let badParticipants ← Word.add 16 (.panic 0x11) badParticipants 1
  pure (w.setBadParticipants badParticipants)

end

inductive Call
  | initializeETHDKG
  | pauseConsensusOnArbitraryHeight (aliceNetHeight : ℕ)
  | register (publicKey : Point)
  | distributeShares (encryptedShares : List ℕ) (commitments : List Point)
  | submitKeyShare (keyShareG1 keyShareG1CorrectnessProof : Point) (keyShareG2 : Twist)
  | submitMasterPublicKey (masterPublicKey : Twist)
  | submitGPKJ (gpkj : Twist)
  | complete
  | accuseParticipantNotRegistered (dishonestAddresses : List Address)
  | accuseParticipantDidNotDistributeShares (dishonestAddresses : List Address)
  | accuseParticipantDistributedBadShares (dishonestAddress : Address) (encryptedShares : List ℕ)
      (commitments : List Point) (sharedKey sharedKeyCorrectnessProof : Point)
  | accuseParticipantDidNotSubmitKeyShares (dishonestAddresses : List Address)
  | accuseParticipantDidNotSubmitGPKJ (dishonestAddresses : List Address)
  | accuseParticipantSubmittedBadGPKJ (validators : List Address)
      (encryptedSharesHash : List Bytes32)
      (commitments : List (List Point)) (dishonestAddress : Address)

section

variable (contract : Contract) (curve : Curve)

def exec (w : World) (msg : Msg) : Call → Except Revert World
  | .initializeETHDKG => ValidatorPool.initializeETHDKG contract w msg
  | .pauseConsensusOnArbitraryHeight aliceNetHeight =>
    ValidatorPool.pauseConsensusOnArbitraryHeight contract w msg aliceNetHeight
  | .register publicKey => register w msg publicKey
  | .distributeShares encryptedShares commitments =>
    distributeShares curve w msg encryptedShares commitments
  | .submitKeyShare keyShareG1 proof keyShareG2 =>
    submitKeyShare curve w msg keyShareG1 proof keyShareG2
  | .submitMasterPublicKey masterPublicKey => submitMasterPublicKey curve w msg masterPublicKey
  | .submitGPKJ gpkj => submitGPKJ w msg gpkj
  | .complete => complete w msg
  | .accuseParticipantNotRegistered accused => accuseParticipantNotRegistered w msg accused
  | .accuseParticipantDidNotDistributeShares accused =>
    accuseParticipantDidNotDistributeShares w msg accused
  | .accuseParticipantDistributedBadShares accused encryptedShares commitments sharedKey proof =>
    accuseParticipantDistributedBadShares curve w msg accused encryptedShares commitments sharedKey
      proof
  | .accuseParticipantDidNotSubmitKeyShares accused =>
    accuseParticipantDidNotSubmitKeyShares w msg accused
  | .accuseParticipantDidNotSubmitGPKJ accused => accuseParticipantDidNotSubmitGPKJ w msg accused
  | .accuseParticipantSubmittedBadGPKJ validators encryptedSharesHash commitments accused =>
    accuseParticipantSubmittedBadGPKJ curve w msg validators encryptedSharesHash commitments accused

/-- A call that reverts leaves everything as it was. -/
def transact (w : World) (msg : Msg) (call : Call) : World :=
  match exec contract curve w msg call with
  | .ok w' => w'
  | .error _ => w

/-- What can happen within a block, if an account that is paid can do what `nested` allows. -/
inductive Step (nested : World → World → Prop) : World → World → Prop
  | call (msg : Msg) (call : Call) (reaction : ∀ v, nested v (msg.received v))
      (ran : exec contract curve w msg call = .ok w') : Step nested w w'
  /-- The pool lets validators join and leave while no round is running. -/
  | joins (account : Address) (absent : account ∉ w.validators)
      (idle : isETHDKGRunning w.dkg w.number = .ok false) :
      Step nested w ({ w with validators := insert account w.validators }.emit
        (.ValidatorJoined account))
  | leaves (account : Address) (mem : account ∈ w.validators)
      (idle : isETHDKGRunning w.dkg w.number = .ok false) :
      Step nested w ({ w with validators := w.validators.erase account }.emit
        (.ValidatorLeft account))
  /-- Snapshots are taken while the consensus is running. One that is followed by maintenance makes
  the pool stop it. -/
  | snapshot (maintenance : Bool) (running : w.isConsensusRunning = true) :
      Step nested w { w with epoch := w.epoch + 1, isConsensusRunning := !maintenance }

/-- What an account can do that gets control at a given depth of calls -/
def Nested : ℕ → World → World → Prop
  | 0 => Eq
  | depth + 1 => Relation.ReflTransGen (Step contract curve (Nested depth))

/-- The world after the deployment of the contracts -/
def deployed (phaseLength confirmationLength epoch number : ℕ) : World where
  dkg := { phaseLength, confirmationLength }
  validators := ∅
  slashed := ∅
  isConsensusRunning := false
  epoch := epoch
  number := number
  events := []

inductive Run : World → Prop
  | start (phaseLength confirmationLength epoch number : ℕ) (pos : 0 < number) :
      Run (deployed phaseLength confirmationLength epoch number)
  | step (run : Run w) (depth : ℕ) (step : Step contract curve (Nested contract curve depth) w w') :
      Run w'
  | block (run : Run w) (number : ℕ) (later : w.number ≤ number) : Run { w with number }

theorem Run.transact (run : Run contract curve w) (msg : Msg) (inert : msg.received = id)
    (call : Call) : Run contract curve (transact contract curve w msg call) := by
  unfold Ethdkg.transact
  split
  · rename_i w' ran
    exact run.step 0 (.call msg call (fun v => by rw [inert]; rfl) ran)
  · exact run

end

end AliceNet.Bridge.Ethdkg
