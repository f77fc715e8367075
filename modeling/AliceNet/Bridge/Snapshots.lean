import AliceNet.Bridge.Parsers

/-! The snapshots contract: the last six snapshots of the side chain in a ring buffer. -/

namespace AliceNet.Bridge.Snapshots

open Outcome (require)
open Parsers (BClaims)

abbrev Address := ℕ

structure Snapshot where
  committedAt : ℕ
  blockClaims : BClaims
  deriving DecidableEq, Repr

def Snapshot.zero : Snapshot := ⟨0, ⟨0, 0, 0, 0, 0, 0, 0⟩⟩

inductive Revert
  | OnlyValidatorsAllowed (caller : Address)
  | ConsensusNotRunning
  | MinimumBlocksIntervalNotPassed (currentBlocksInterval minimumBlocksInterval : ℕ)
  | InvalidMasterPublicKey (calculatedMasterKeyHash expectedMasterKeyHash : Bytes32)
  | SignatureVerificationFailed
  | UnexpectedBlockHeight (givenBlockHeight expectedBlockHeight : ℕ)
  | BlockHeightNotMultipleOfEpochLength (blockHeight epochLength : ℕ)
  | InvalidChainId (chainId : ℕ)
  | MigrationNotAllowedAtCurrentEpoch
  | MigrationInputDataMismatch (groupSignatureLength bClaimsLength : ℕ)
  | SnapshotsNotInBuffer (epoch : ℕ)
  | ValidatorNotElected (validatorIndex startIndex endIndex : ℕ) (groupSignatureHash : Bytes32)
  | InvalidRingBufferBlockHeight (newBlockHeight oldBlockHeight : ℕ)
  | EpochMustBeNonZero
  | OnlyFactory (sender expected : Address)
  | alreadyInitialized
  | parser (reason : Parsers.Revert)
  /-- A call to another contract reverts. -/
  | external (reason : String)
  | panic (code : ℕ)
  deriving DecidableEq, Repr

structure Contract where
  factory : Address
  epochLength : ℕ
  chainId : ℕ
  keccak256 : Bytes → Bytes32
  verifySignatureASM : Bytes → (signature publicKey : List ℕ) → Bool

structure Storage where
  initialized : Bool
  minimumIntervalBetweenSnapshots : UInt32
  snapshotDesperationDelay : UInt32
  snapshotDesperationFactor : UInt32
  epoch : UInt32
  snapshots : Fin 6 → Snapshot
  deriving DecidableEq

def Storage.initial : Storage := ⟨false, 0, 0, 0, 0, fun _ => .zero⟩

/-- A call's context, with what the other contracts answer during it. -/
structure Msg where
  sender : Address
  number : ℕ
  isValidator : Bool
  isConsensusRunning : Bool
  isMaintenanceScheduled : Bool
  pauseConsensus : Except Revert Unit
  getLastRoundParticipantIndex : Except Revert ℕ
  getValidatorsCount : ℕ
  getMasterPublicKeyHash : Bytes32
  updateHead : UInt32 → Except Revert Unit

def add256 : ℕ → ℕ → Except Revert ℕ := Word.add 256 (.panic 0x11)
def sub256 : ℕ → ℕ → Except Revert ℕ := Word.sub (.panic 0x11)
def mul256 : ℕ → ℕ → Except Revert ℕ := Word.mul 256 (.panic 0x11)

def mod256 (a b : ℕ) : Except Revert ℕ := do
  require (b ≠ 0) (.panic 0x12)
  pure (a % b)

def div256 (a b : ℕ) : Except Revert ℕ := do
  require (b ≠ 0) (.panic 0x12)
  pure (a / b)

def parse (result : Except Parsers.Revert α) : Except Revert α :=
  result.mapError .parser

section

variable (contract : Contract) (s : Storage) (msg : Msg)

def onlyFactory : Except Revert Unit :=
  require (msg.sender = contract.factory) (.OnlyFactory msg.sender contract.factory)

def getEpochFromHeight (height : UInt32) : Except Revert UInt32 :=
  if height.toNat ≤ contract.epochLength then pure 1
  else do
    if (← mod256 height.toNat contract.epochLength) = 0 then
      pure (UInt32.ofNat (← div256 height.toNat contract.epochLength))
    else pure (UInt32.ofNat ((← div256 height.toNat contract.epochLength) + 1))

def slotOf (epoch : UInt32) : Fin 6 :=
  ⟨epoch.toNat % 6, Nat.mod_lt _ (by norm_num)⟩

def indexFor (epoch : UInt32) : Except Revert (Fin 6) := do
  require (epoch ≠ 0) .EpochMustBeNonZero
  pure (slotOf epoch)

def unsafeSet (self : Fin 6 → Snapshot) (new : Snapshot) (epoch : UInt32) :
    Except Revert (Fin 6 → Snapshot) := do
  pure (Function.update self (← indexFor epoch) new)

def RingBuffer.set (self : Fin 6 → Snapshot) (new : Snapshot) :
    Except Revert ((Fin 6 → Snapshot) × UInt32) := do
  let epoch ← getEpochFromHeight contract new.blockClaims.height
  let old := self (← indexFor epoch)
  require (old.blockClaims.height < new.blockClaims.height)
    (.InvalidRingBufferBlockHeight new.blockClaims.height.toNat old.blockClaims.height.toNat)
  pure (← unsafeSet self new epoch, epoch)

def RingBuffer.get (self : Fin 6 → Snapshot) (epoch : UInt32) : Except Revert Snapshot := do
  pure (self (← indexFor epoch))

def setSnapshot (new : Snapshot) : Except Revert (Storage × UInt32) := do
  let (snapshots, epoch) ← RingBuffer.set contract s.snapshots new
  pure ({ s with snapshots, epoch }, epoch)

def getSnapshot32 (epoch : UInt32) : Except Revert Snapshot :=
  if epoch = 0 then pure .zero
  else do
    let snapshot ← RingBuffer.get s.snapshots epoch
    require ((← getEpochFromHeight contract snapshot.blockClaims.height) = epoch)
      (.SnapshotsNotInBuffer epoch.toNat)
    pure snapshot

def getLatestSnapshot : Except Revert Snapshot :=
  getSnapshot32 contract s s.epoch

/-- The epoch is cut down to 32 bits. -/
def getSnapshot (epoch : ℕ) : Except Revert Snapshot :=
  getSnapshot32 contract s (UInt32.ofNat epoch)

def desperationLoop (numValidators blocksSinceDesperation desperationFactor : ℕ) :
    (rounds desperation numValidatorsAllowed : ℕ) → Except Revert ℕ
  | 0, _, numValidatorsAllowed => pure numValidatorsAllowed
  | rounds + 1, desperation, numValidatorsAllowed =>
    if desperation < blocksSinceDesperation ∧ numValidatorsAllowed < numValidators then do
      let desperation ← add256 desperation (← div256 desperationFactor numValidatorsAllowed)
      desperationLoop numValidators blocksSinceDesperation desperationFactor rounds desperation
        (← add256 numValidatorsAllowed 1)
    else pure numValidatorsAllowed

structure Turn where
  isAllowedToDoSnapshots : Bool
  start : ℕ
  finish : ℕ

def mayValidatorSnapshot (numValidators myIdx blocksSinceDesperation : ℕ) (randomSeed : Bytes32)
    (desperationFactor : ℕ) : Except Revert Turn := do
  let numValidatorsAllowed ← desperationLoop numValidators blocksSinceDesperation desperationFactor
    numValidators 0 1
  let start ← mod256 randomSeed.toNat numValidators
  let finish ← mod256 (← add256 start numValidatorsAllowed) numValidators
  pure ⟨if start < finish then decide (start ≤ myIdx ∧ myIdx < finish) else
    decide (start ≤ myIdx ∨ myIdx < finish), start, finish⟩

def isValidatorElectedToPerformSnapshot (lastSnapshotCommittedAt : ℕ)
    (groupSignatureHash : Bytes32) : Except Revert Unit := do
  let validatorIndex ← msg.getLastRoundParticipantIndex
  let ethBlocksSinceLastSnapshot ← sub256 msg.number lastSnapshotCommittedAt
  let blocksSinceDesperation := ethBlocksSinceLastSnapshot - s.snapshotDesperationDelay.toNat
  let myIdx ← sub256 validatorIndex 1
  let turn ← mayValidatorSnapshot msg.getValidatorsCount myIdx blocksSinceDesperation
    groupSignatureHash s.snapshotDesperationFactor.toNat
  require (turn.isAllowedToDoSnapshots = true) (.ValidatorNotElected myIdx turn.start turn.finish
    groupSignatureHash)

def parseAndValidateBClaims (epoch : UInt32) (bClaims : Bytes) : Except Revert BClaims := do
  let blockClaims ← parse (Parsers.extractBClaims bClaims)
  let expected ← mul256 epoch.toNat contract.epochLength
  require (expected = blockClaims.height.toNat) (.UnexpectedBlockHeight blockClaims.height.toNat
    expected)
  require (blockClaims.chainId.toNat = contract.chainId) (.InvalidChainId blockClaims.chainId.toNat)
  pure blockClaims

def checkBClaimsSignature (groupSignature bClaims : Bytes) : Except Revert Unit := do
  let group ← parse (Parsers.extractSigGroup groupSignature 0)
  let calculated := contract.keccak256 (group.publicKey.flatMap (Bytes.bigEndian 32))
  require (calculated = msg.getMasterPublicKeyHash)
    (.InvalidMasterPublicKey calculated msg.getMasterPublicKeyHash)
  require (contract.verifySignatureASM (contract.keccak256 bClaims).toBytes group.signature
    group.publicKey = true) .SignatureVerificationFailed

def checkSnapshotMinimumInterval (lastSnapshotCommittedAt : ℕ) : Except Revert Unit := do
  let earliest ← add256 lastSnapshotCommittedAt s.minimumIntervalBetweenSnapshots.toNat
  require (earliest ≤ msg.number) (.MinimumBlocksIntervalNotPassed msg.number earliest)

def initializeStorage (desperationDelay desperationFactor : UInt32) : Except Revert Storage := do
  onlyFactory contract msg
  require (s.initialized = false) .alreadyInitialized
  pure { s with
    initialized := true
    minimumIntervalBetweenSnapshots := UInt32.ofNat (contract.epochLength / 4)
    snapshotDesperationDelay := desperationDelay
    snapshotDesperationFactor := desperationFactor }

def setSnapshotDesperationDelay (value : UInt32) : Except Revert Storage := do
  onlyFactory contract msg
  pure { s with snapshotDesperationDelay := value }

def setSnapshotDesperationFactor (value : UInt32) : Except Revert Storage := do
  onlyFactory contract msg
  pure { s with snapshotDesperationFactor := value }

def setMinimumIntervalBetweenSnapshots (value : UInt32) : Except Revert Storage := do
  onlyFactory contract msg
  pure { s with minimumIntervalBetweenSnapshots := value }

/-- `_epochRegister().get() + 1` -/
def nextEpoch : Except Revert UInt32 := do
  require (s.epoch.toNat + 1 < 2 ^ 32) (.panic 0x11)
  pure (s.epoch + 1)

def pauseForMaintenance : Except Revert Bool :=
  if msg.isMaintenanceScheduled then do
    msg.pauseConsensus
    pure false
  else pure true

def snapshot (groupSignature bClaims : Bytes) : Except Revert (Storage × Bool) := do
  require (msg.isValidator = true) (.OnlyValidatorsAllowed msg.sender)
  require (msg.isConsensusRunning = true) .ConsensusNotRunning
  let epoch ← nextEpoch s
  let blockClaims ← parseAndValidateBClaims contract epoch bClaims
  let latest ← getLatestSnapshot contract s
  checkSnapshotMinimumInterval s msg latest.committedAt
  isValidatorElectedToPerformSnapshot s msg latest.committedAt (contract.keccak256 groupSignature)
  checkBClaimsSignature contract msg groupSignature bClaims
  let isSafeToProceedConsensus ← pauseForMaintenance msg
  let (s, _) ← setSnapshot contract s ⟨msg.number, blockClaims⟩
  msg.updateHead epoch
  pure ({ s with epoch := epoch }, isSafeToProceedConsensus)

/-- One round of the loop of `migrateSnapshots`. -/
def migrateOne (groupSignature bClaims : Bytes) : Except Revert (Storage × UInt32) := do
  let blockClaims ← parse (Parsers.extractBClaims bClaims)
  let rest ← mod256 blockClaims.height.toNat contract.epochLength
  require (rest = 0) (.BlockHeightNotMultipleOfEpochLength blockClaims.height.toNat
    contract.epochLength)
  checkBClaimsSignature contract msg groupSignature bClaims
  let epoch ← getEpochFromHeight contract blockClaims.height
  let (s, _) ← setSnapshot contract s ⟨msg.number, blockClaims⟩
  pure (s, epoch)

def migrateLoop (msg : Msg) : List (Bytes × Bytes) → Storage → UInt32 →
    Except Revert (Storage × UInt32)
  | [], s, epoch => pure (s, epoch)
  | (groupSignature, bClaims) :: rest, s, _ => do
    let (s, epoch) ← migrateOne contract s msg groupSignature bClaims
    migrateLoop msg rest s epoch

def migrateSnapshots (groupSignature bClaims : List Bytes) : Except Revert Storage := do
  onlyFactory contract msg
  require (s.epoch = 0) .MigrationNotAllowedAtCurrentEpoch
  require (groupSignature.length = bClaims.length ∧ groupSignature.length ≠ 0)
    (.MigrationInputDataMismatch groupSignature.length bClaims.length)
  let (s, epoch) ← migrateLoop contract msg (groupSignature.zip bClaims) s 0
  pure { s with epoch := epoch }

end

end AliceNet.Bridge.Snapshots
