import AliceNet.Bridge.StakingNFT

/-! The validator pool: the active validators and the queue of those that leave. -/

namespace AliceNet.Bridge.ValidatorPool

open Function

open Outcome (require)

abbrev Address := ℕ

inductive Revert
  | CallerNotValidator (caller : Address)
  | ConsensusRunning
  | ETHDKGRoundRunning
  | OnlyStakingContractsAllowed
  | MaxIntervalWithoutSnapshotsMustBeNonZero
  | MaxNumValidatorsIsTooLow (current minMaxValidatorsAllowed : ℕ)
  | MinimumBlockIntervalNotMet (currentBlockNumber targetBlockNumber : ℕ)
  | NotEnoughValidatorSlotsAvailable (requiredSlots availableSlots : ℕ)
  | RegistrationParameterLengthMismatch (validatorsLength stakerTokenIDsLength : ℕ)
  | SenderShouldOwnPosition (positionId : ℕ)
  | LengthGreaterThanAvailableValidators (length availableValidators : ℕ)
  | ProfitsOnlyClaimableWhileConsensusRunning
  | TokenBalanceChangedDuringOperation
  | EthBalanceChangedDuringOperation
  | SenderNotInExitingQueue (sender : Address)
  | WaitingPeriodNotMet
  | AddressNotAccusable (addr : Address)
  | InvalidIndex (index : ℕ)
  | AddressAlreadyValidator (addr : Address)
  | AddressNotValidator (addr : Address)
  | PayoutTooLow
  | InsufficientFundsInStakePosition (stakeAmount minimumRequiredAmount : ℕ)
  | KeyNotInMap (key : Address)
  | CannotTransferToZeroAddress
  | EthTransferFailed (sender to_ : Address) (amount : ℕ)
  | OnlyFactory (sender expected : Address)
  | OnlyETHDKG (sender expected : Address)
  | OnlySnapshots (sender expected : Address)
  | alreadyInitialized
  | erc20 (reason : String)
  | erc721 (reason : String)
  | staking (reason : StakingNFT.Revert)
  /-- A call to another contract reverts. -/
  | external (reason : String)
  | panic (code : ℕ)
  deriving DecidableEq, Repr

def add256 : ℕ → ℕ → Except Revert ℕ := Word.add 256 (.panic 0x11)
def sub256 : ℕ → ℕ → Except Revert ℕ := Word.sub (.panic 0x11)

structure ValidatorData where
  address : Address
  tokenID : ℕ
  deriving DecidableEq, Repr

structure ExitingValidatorData where
  tokenID : ℕ
  freeAfter : ℕ
  deriving DecidableEq, Repr

structure ValidatorDataMap where
  values : List ValidatorData
  indexes : Address → ℕ

namespace ValidatorDataMap

def contains (map : ValidatorDataMap) (key : Address) : Bool := map.indexes key != 0

def length (map : ValidatorDataMap) : ℕ := map.values.length

def at_ (map : ValidatorDataMap) (index : ℕ) : Except Revert ValidatorData :=
  match map.values[index]? with
  | some value => .ok value
  | none => .error (.panic 0x32)

def add (map : ValidatorDataMap) (value : ValidatorData) : ValidatorDataMap × Bool :=
  if map.contains value.address = false then
    let values := map.values ++ [value]
    (⟨values, update map.indexes value.address values.length⟩, true)
  else (map, false)

/-- The step of `remove` that moves the last value into the gap. -/
def moveLast (map : ValidatorDataMap) (toDeleteIndex lastIndex : ℕ) :
    Except Revert ValidatorDataMap :=
  if lastIndex ≠ toDeleteIndex then do
    let lastValue ← map.at_ lastIndex
    require (toDeleteIndex < map.values.length) (.panic 0x32)
    pure ⟨map.values.set toDeleteIndex lastValue,
      update map.indexes lastValue.address (toDeleteIndex + 1)⟩
  else pure map

def remove (map : ValidatorDataMap) (key : Address) : Except Revert (ValidatorDataMap × Bool) :=
  if map.indexes key ≠ 0 then do
    let toDeleteIndex ← sub256 (map.indexes key) 1
    let lastIndex ← sub256 map.values.length 1
    let map ← map.moveLast toDeleteIndex lastIndex
    pure (⟨map.values.dropLast, update map.indexes key 0⟩, true)
  else pure (map, false)

def tryGet (map : ValidatorDataMap) (key : Address) : Except Revert (Bool × ValidatorData) :=
  if map.indexes key = 0 then pure (false, ⟨0, 0⟩)
  else do pure (true, ← map.at_ (map.indexes key - 1))

def get (map : ValidatorDataMap) (key : Address) : Except Revert ValidatorData := do
  let (ran, value) ← map.tryGet key
  require (ran = true) (.KeyNotInMap key)
  pure value

end ValidatorDataMap

def POSITION_LOCK_PERIOD : ℕ := 172800
def CLAIM_PERIOD : ℕ := 3

structure Storage where
  initialized : Bool
  maxIntervalWithoutSnapshots : ℕ
  stakeAmount : ℕ
  maxNumValidators : ℕ
  disputerReward : ℕ
  isMaintenanceScheduled : Bool
  isConsensusRunning : Bool
  validators : ValidatorDataMap
  exitingValidatorsData : Address → ExitingValidatorData
  ipLocations : Address → String

inductive Stake
  | publicStaking
  | validatorStaking
  deriving DecidableEq, Repr

/-- The pool with the two staking contracts and what it owns itself. -/
structure World where
  pool : Storage
  staking : Stake → StakingNFT.Storage
  tokenBalance : ℕ
  ethBalance : ℕ

structure Contract where
  self : Address
  factory : Address
  ethdkg : Address
  snapshots : Address
  chain : Stake → StakingNFT.Chain

/-- A call's context, with what other accounts and contracts answer during it. -/
structure Msg where
  sender : Address
  number : ℕ
  /-- Whether a plain Ether call to the address succeeds. -/
  receives : Address → Bool
  /-- Whether the address takes a position that is sent to it. -/
  onERC721Received : Address → Bool
  /-- Whether the pool may transfer the public position. -/
  isApproved : (tokenID : ℕ) → Bool
  isETHDKGRunning : Bool
  getEpoch : UInt32
  getCommittedHeightFromLatestSnapshot : ℕ
  initializeETHDKG : Except Revert Unit
  setCustomAliceNetHeight : ℕ → Except Revert Unit

section

variable (contract : Contract) (s : Storage) (w : World) (msg : Msg)

def onlyFactory : Except Revert Unit :=
  require (msg.sender = contract.factory) (.OnlyFactory msg.sender contract.factory)

def onlyETHDKG : Except Revert Unit :=
  require (msg.sender = contract.ethdkg) (.OnlyETHDKG msg.sender contract.ethdkg)

def onlySnapshots : Except Revert Unit :=
  require (msg.sender = contract.snapshots) (.OnlySnapshots msg.sender contract.snapshots)

def isValidator (account : Address) : Bool := s.validators.contains account

def isInExitingQueue (account : Address) : Bool :=
  decide (0 < (s.exitingValidatorsData account).freeAfter)

def isAccusable (account : Address) : Bool :=
  isValidator s account || isInExitingQueue s account

def assertNotConsensusRunning : Except Revert Unit :=
  require (w.pool.isConsensusRunning = false) .ConsensusRunning

def assertNotETHDKGRunning : Except Revert Unit :=
  require (msg.isETHDKGRunning = false) .ETHDKGRoundRunning

def balanceShouldNotChange (w : World) (body : World → Except Revert (World × α)) :
    Except Revert (World × α) := do
  let (w', result) ← body w
  require (w.tokenBalance = w'.tokenBalance) .TokenBalanceChangedDuringOperation
  require (w.ethBalance = w'.ethBalance) .EthBalanceChangedDuringOperation
  pure (w', result)

def chainOf (stake : Stake) : StakingNFT.Chain :=
  { contract.chain stake with receives := fun account =>
    account == contract.self || msg.receives account }

def callOf (allowance : ℕ) : StakingNFT.Msg := ⟨contract.self, 0, allowance, msg.number⟩

def World.setStaking (stake : Stake) (σ : StakingNFT.Storage) : World :=
  { w with staking := update w.staking stake σ }

def getPosition (stake : Stake) (tokenID : ℕ) : Except Revert StakingNFT.Position := do
  (StakingNFT.onlyIfTokenExists (w.staking stake) tokenID).mapError .staking
  pure ((w.staking stake).positions tokenID)

def mintPosition (stake : Stake) (minerShares : ℕ) : Except Revert (World × ℕ) := do
  (StakingNFT.withCircuitBreaker (w.staking stake)).mapError .staking
  let (σ, tokenID) ← (StakingNFT.mintNFT (chainOf contract msg stake) (w.staking stake)
    (callOf contract msg (min minerShares w.tokenBalance)) contract.self minerShares).mapError
      .staking
  pure ({ w.setStaking stake σ with tokenBalance := w.tokenBalance - minerShares }, tokenID)

def burnPosition (stake : Stake) (tokenID : ℕ) : Except Revert (World × ℕ × ℕ) := do
  let (σ, payoutEth, payoutToken) ← (StakingNFT.burnNFT (chainOf contract msg stake)
    (w.staking stake) (callOf contract msg 0) contract.self contract.self tokenID).mapError .staking
  let w := w.setStaking stake σ
  pure ({ w with tokenBalance := w.tokenBalance + payoutToken, ethBalance := w.ethBalance +
    payoutEth },
    payoutEth, payoutToken)

def collectTo (to_ : Address) (tokenID : ℕ) : Except Revert (World × ℕ × ℕ) := do
  let (σ, payoutEth) ← (StakingNFT.collectEthTo (chainOf contract msg .validatorStaking)
    (w.staking .validatorStaking) (callOf contract msg 0) to_ tokenID).mapError .staking
  let (σ, payoutToken) ← (StakingNFT.collectTokenTo (chainOf contract msg .validatorStaking) σ
    (callOf contract msg 0) to_ tokenID).mapError .staking
  pure (w.setStaking .validatorStaking σ, payoutEth, payoutToken)

def depositToken (minerShares : ℕ) : Except Revert World := do
  let σ ← (StakingNFT.depositToken (chainOf contract msg .validatorStaking)
    (w.staking .validatorStaking)
    (callOf contract msg (min minerShares w.tokenBalance)) StakingNFT.MAGIC_VALUE
      minerShares).mapError .staking
  pure { w.setStaking .validatorStaking σ with tokenBalance := w.tokenBalance - minerShares }

def lockOwnPosition (tokenID : ℕ) : Except Revert World := do
  let (σ, _) ← (StakingNFT.lockOwnPosition (w.staking .publicStaking) (callOf contract msg 0)
    tokenID POSITION_LOCK_PERIOD).mapError .staking
  pure (w.setStaking .publicStaking σ)

/-- `safeTransferFrom` of a public position, called by the pool -/
def transferPosition (sender to_ : Address) (tokenID : ℕ) : Except Revert World := do
  let σ := w.staking .publicStaking
  let owner ← (StakingNFT.ownerOf σ tokenID).mapError .staking
  require (owner = contract.self ∨ msg.isApproved tokenID)
    (.erc721 "ERC721: caller is not token owner or approved")
  require (owner = sender) (.erc721 "ERC721: transfer from incorrect owner")
  require (to_ ≠ 0) (.erc721 "ERC721: transfer to the zero address")
  require (to_ = contract.self ∨ msg.onERC721Received to_)
    (.erc721 "ERC721: transfer to non ERC721Receiver implementer")
  pure (w.setStaking .publicStaking { σ with owners := update σ.owners tokenID (some to_) })

def safeTransferERC20 (to_ : Address) (amount : ℕ) : Except Revert World :=
  if amount = 0 then pure w
  else do
    require (to_ ≠ 0) (.erc20 "ERC20: transfer to the zero address")
    require (amount ≤ w.tokenBalance) (.erc20 "ERC20: transfer amount exceeds balance")
    pure { w with tokenBalance := if to_ = contract.self then w.tokenBalance else
      w.tokenBalance - amount }

def safeTransferEth (to_ : Address) (amount : ℕ) : Except Revert World :=
  if amount = 0 then pure w
  else do
    require (to_ ≠ 0) .CannotTransferToZeroAddress
    require (amount ≤ w.ethBalance ∧ to_ ≠ contract.self ∧ msg.receives to_)
      (.EthTransferFailed contract.self to_ amount)
    pure { w with ethBalance := w.ethBalance - amount }

def transferEthAndTokens (to_ : Address) (payoutEth payoutToken : ℕ) : Except Revert World := do
  let w ← safeTransferERC20 contract w to_ payoutToken
  safeTransferEth contract w msg to_ payoutEth

def swapPublicStakingForValidatorStaking (to_ : Address) (stakerTokenID : ℕ) :
    Except Revert (World × ℕ × ℕ × ℕ) := do
  let position ← getPosition w .publicStaking stakerTokenID
  let stakeAmount := w.pool.stakeAmount
  require (stakeAmount ≤ position.shares) (.InsufficientFundsInStakePosition position.shares
    stakeAmount)
  let w ← transferPosition contract w msg to_ contract.self stakerTokenID
  let (w, payoutEth, payoutToken) ← burnPosition contract w msg .publicStaking stakerTokenID
  require (position.shares ≤ payoutToken) .PayoutTooLow
  let payoutToken ← sub256 payoutToken stakeAmount
  let (w, validatorTokenID) ← mintPosition contract w msg .validatorStaking stakeAmount
  pure (w, validatorTokenID, payoutEth, payoutToken)

def burnNFTPosition (stake : Stake) (tokenID : ℕ) : Except Revert (World × ℕ × ℕ × ℕ) := do
  let position ← getPosition w stake tokenID
  let (w, payoutEth, payoutToken) ← burnPosition contract w msg stake tokenID
  pure (w, position.shares, payoutEth, payoutToken)

def burnValidatorStakingPosition (validator : Address) : Except Revert (World × ℕ × ℕ × ℕ) := do
  let data ← w.pool.validators.get validator
  burnNFTPosition contract w msg .validatorStaking data.tokenID

def burnExitingPublicStakingPosition (validator : Address) : Except Revert (World × ℕ × ℕ × ℕ) :=
  burnNFTPosition contract w msg .publicStaking (w.pool.exitingValidatorsData validator).tokenID

def swapValidatorStakingForPublicStaking (validator : Address) :
    Except Revert (World × ℕ × ℕ × ℕ) := do
  let (w, minerShares, payoutEth, payoutToken) ← burnValidatorStakingPosition contract w msg
    validator
  require (minerShares ≤ payoutToken) .PayoutTooLow
  let payoutToken ← sub256 payoutToken minerShares
  let (w, stakeTokenID) ← mintPosition contract w msg .publicStaking minerShares
  pure (w, stakeTokenID, payoutEth, payoutToken)

def removeValidatorData (validator : Address) : Except Revert Storage := do
  let (validators, _) ← s.validators.remove validator
  pure { s with validators, ipLocations := update s.ipLocations validator "" }

def removeExitingQueueData (validator : Address) : Storage :=
  { s with exitingValidatorsData := update s.exitingValidatorsData validator ⟨0, 0⟩ }

/-- The branch that the slashes share. -/
def removeData (validator : Address) : Except Revert Storage :=
  if isValidator s validator then removeValidatorData s validator
  else pure (removeExitingQueueData s validator)

/-- The first step of `_moveToExitingQueue`. -/
def leaveValidators (validator : Address) : Except Revert Storage :=
  if isValidator s validator then removeValidatorData s validator else pure s

/-- The queue keeps the token's number in 128 bits. -/
def moveToExitingQueue (validator : Address) (stakeTokenID : ℕ) : Except Revert Storage := do
  let s ← leaveValidators s validator
  let data : ExitingValidatorData :=
    ⟨stakeTokenID % 2 ^ 128, (msg.getEpoch.toNat + CLAIM_PERIOD) % 2 ^ 128⟩
  pure { s with exitingValidatorsData := update s.exitingValidatorsData validator data }

/-- The branch of `_slash` that burns the position. -/
def burnAccused (dishonestValidator : Address) : Except Revert (World × ℕ × ℕ × ℕ) :=
  if isValidator w.pool dishonestValidator then
    burnValidatorStakingPosition contract w msg dishonestValidator
  else burnExitingPublicStakingPosition contract w msg dishonestValidator

def slash (dishonestValidator : Address) : Except Revert (World × ℕ × ℕ × ℕ) := do
  require (isAccusable w.pool dishonestValidator = true) (.AddressNotAccusable dishonestValidator)
  let (w, minerShares, payoutEth, payoutToken) ← burnAccused contract w msg dishonestValidator
  -- with fewer shares than the reward nothing is left to stake
  let minerShares := if w.pool.disputerReward ≤ minerShares then
    minerShares - w.pool.disputerReward else 0
  require (minerShares ≤ payoutToken) .PayoutTooLow
  let payoutToken ← sub256 payoutToken minerShares
  pure (w, minerShares, payoutEth, payoutToken)

def registerBody (validator : Address) (stakerTokenID : ℕ) (w : World) :
    Except Revert (World × ℕ × ℕ × ℕ) := do
  require (w.pool.validators.length < w.pool.maxNumValidators)
    (.NotEnoughValidatorSlotsAvailable 1 0)
  require (isAccusable w.pool validator = false) (.AddressAlreadyValidator validator)
  let (w, validatorTokenID, payoutEth, payoutToken) ←
    swapPublicStakingForValidatorStaking contract w msg msg.sender stakerTokenID
  let (validators, _) := w.pool.validators.add ⟨validator, validatorTokenID⟩
  let w ← transferEthAndTokens contract { w with pool := { w.pool with validators } } msg validator
    payoutEth payoutToken
  pure (w, validatorTokenID, payoutEth, payoutToken)

def registerValidator (validator : Address) (stakerTokenID : ℕ) :
    Except Revert (World × ℕ × ℕ × ℕ) :=
  balanceShouldNotChange w (registerBody contract msg validator stakerTokenID)

def unregisterBody (validator : Address) (w : World) : Except Revert (World × ℕ × ℕ × ℕ) := do
  require (isValidator w.pool validator = true) (.AddressNotValidator validator)
  let (w, stakeTokenID, payoutEth, payoutToken) ← swapValidatorStakingForPublicStaking contract w
    msg validator
  let pool ← moveToExitingQueue w.pool msg validator stakeTokenID
  let w ← transferEthAndTokens contract { w with pool } msg validator payoutEth payoutToken
  pure (w, stakeTokenID, payoutEth, payoutToken)

def unregisterValidator (validator : Address) : Except Revert (World × ℕ × ℕ × ℕ) :=
  balanceShouldNotChange w (unregisterBody contract msg validator)

def initializePool (stakeAmount maxNumValidators disputerReward maxIntervalWithoutSnapshots : ℕ) :
    Except Revert World := do
  onlyFactory contract msg
  require (w.pool.initialized = false) .alreadyInitialized
  let pool := { w.pool with
    initialized := true, stakeAmount, maxNumValidators, disputerReward,
      maxIntervalWithoutSnapshots }
  pure { w with pool }

def setStakeAmount (stakeAmount : ℕ) : Except Revert World := do
  onlyFactory contract msg
  pure { w with pool := { w.pool with stakeAmount } }

def setMaxIntervalWithoutSnapshots (maxIntervalWithoutSnapshots : ℕ) : Except Revert World := do
  onlyFactory contract msg
  require (maxIntervalWithoutSnapshots ≠ 0) .MaxIntervalWithoutSnapshotsMustBeNonZero
  pure { w with pool := { w.pool with maxIntervalWithoutSnapshots } }

def setMaxNumValidators (maxNumValidators : ℕ) : Except Revert World := do
  onlyFactory contract msg
  require (w.pool.validators.length ≤ maxNumValidators)
    (.MaxNumValidatorsIsTooLow maxNumValidators w.pool.validators.length)
  pure { w with pool := { w.pool with maxNumValidators } }

def setDisputerReward (disputerReward : ℕ) : Except Revert World := do
  onlyFactory contract msg
  pure { w with pool := { w.pool with disputerReward } }

def setLocation (ip : String) : Except Revert World := do
  require (isValidator w.pool msg.sender = true) (.CallerNotValidator msg.sender)
  pure { w with pool := { w.pool with ipLocations := update w.pool.ipLocations msg.sender ip } }

def scheduleMaintenance : Except Revert World := do
  onlyFactory contract msg
  pure { w with pool := { w.pool with isMaintenanceScheduled := true } }

def initializeETHDKG : Except Revert World := do
  onlyFactory contract msg
  assertNotETHDKGRunning msg
  assertNotConsensusRunning w
  msg.initializeETHDKG
  pure w

def completeETHDKG : Except Revert World := do
  onlyETHDKG contract msg
  pure { w with
    pool := { w.pool with isMaintenanceScheduled := false, isConsensusRunning := true } }

def pauseConsensus : Except Revert World := do
  onlySnapshots contract msg
  pure { w with pool := { w.pool with isConsensusRunning := false } }

def pauseConsensusOnArbitraryHeight (aliceNetHeight : ℕ) : Except Revert World := do
  onlyFactory contract msg
  let targetBlockNumber ← add256 msg.getCommittedHeightFromLatestSnapshot
    w.pool.maxIntervalWithoutSnapshots
  require (targetBlockNumber < msg.number)
    (.MinimumBlockIntervalNotMet msg.number targetBlockNumber)
  msg.setCustomAliceNetHeight aliceNetHeight
  pure { w with pool := { w.pool with isConsensusRunning := false } }

def registerLoop (msg : Msg) : List (Address × ℕ) → World → Except Revert World
  | [], w => pure w
  | (validator, stakerTokenID) :: rest, w => do
    let owner ← (StakingNFT.ownerOf (w.staking .publicStaking) stakerTokenID).mapError .staking
    require (msg.sender = owner) (.SenderShouldOwnPosition stakerTokenID)
    let (w, _) ← registerValidator contract w msg validator stakerTokenID
    registerLoop msg rest w

def checkSlots (slots : ℕ) : Except Revert Unit :=
  if slots + s.validators.length ≤ s.maxNumValidators then pure ()
  else do
    let available ← sub256 s.maxNumValidators s.validators.length
    throw (.NotEnoughValidatorSlotsAvailable slots available)

def registerValidators (validators : List Address) (stakerTokenIDs : List ℕ) :
    Except Revert World := do
  onlyFactory contract msg
  assertNotETHDKGRunning msg
  assertNotConsensusRunning w
  checkSlots w.pool validators.length
  require (validators.length = stakerTokenIDs.length)
    (.RegistrationParameterLengthMismatch validators.length stakerTokenIDs.length)
  registerLoop contract msg (validators.zip stakerTokenIDs) w

def unregisterLoop (msg : Msg) : List Address → World → Except Revert World
  | [], w => pure w
  | validator :: rest, w => do
    let (w, _) ← unregisterValidator contract w msg validator
    unregisterLoop msg rest w

def unregisterValidators (validators : List Address) : Except Revert World := do
  onlyFactory contract msg
  assertNotETHDKGRunning msg
  assertNotConsensusRunning w
  require (validators.length ≤ w.pool.validators.length)
    (.LengthGreaterThanAvailableValidators validators.length w.pool.validators.length)
  unregisterLoop contract msg validators w

def unregisterAllLoop (msg : Msg) : (rounds : ℕ) → World → Except Revert World
  | 0, w => pure w
  | rounds + 1, w =>
    if 0 < w.pool.validators.length then do
      let data ← w.pool.validators.at_ (w.pool.validators.length - 1)
      let (w, _) ← unregisterValidator contract w msg data.address
      unregisterAllLoop msg rounds w
    else pure w

def unregisterAllValidators : Except Revert World := do
  onlyFactory contract msg
  assertNotETHDKGRunning msg
  assertNotConsensusRunning w
  unregisterAllLoop contract msg w.pool.validators.length w

def collectBody (w : World) : Except Revert (World × ℕ × ℕ) := do
  require (w.pool.isConsensusRunning = true) .ProfitsOnlyClaimableWhileConsensusRunning
  let data ← w.pool.validators.get msg.sender
  collectTo contract w msg msg.sender data.tokenID

def collectProfits : Except Revert (World × ℕ × ℕ) := do
  require (isValidator w.pool msg.sender = true) (.CallerNotValidator msg.sender)
  balanceShouldNotChange w (collectBody contract msg)

def claimExitingNFTPosition : Except Revert (World × ℕ) := do
  let data := w.pool.exitingValidatorsData msg.sender
  require (data.freeAfter ≠ 0) (.SenderNotInExitingQueue msg.sender)
  require (data.freeAfter < msg.getEpoch.toNat) .WaitingPeriodNotMet
  let w := { w with pool := removeExitingQueueData w.pool msg.sender }
  let w ← lockOwnPosition contract w msg data.tokenID
  let w ← transferPosition contract w msg contract.self msg.sender data.tokenID
  pure (w, data.tokenID)

def majorSlashBody (dishonestValidator disputer : Address) (w : World) :
    Except Revert (World × Unit) := do
  require (isAccusable w.pool dishonestValidator = true) (.AddressNotAccusable dishonestValidator)
  let (w, minerShares, payoutEth, payoutToken) ← slash contract w msg dishonestValidator
  let pool ← removeData w.pool dishonestValidator
  let w ← depositToken contract { w with pool } msg minerShares
  let w ← transferEthAndTokens contract w msg disputer payoutEth payoutToken
  pure (w, ())

def majorSlash (dishonestValidator disputer : Address) : Except Revert World := do
  onlyETHDKG contract msg
  let (w, _) ← balanceShouldNotChange w (majorSlashBody contract msg dishonestValidator disputer)
  pure w

/-- The branch of `minorSlash` that stakes what is left of the shares. -/
def restake (dishonestValidator : Address) (minerShares : ℕ) : Except Revert World :=
  if 0 < minerShares then do
    let (w, stakeTokenID) ← mintPosition contract w msg .publicStaking minerShares
    let pool ← moveToExitingQueue w.pool msg dishonestValidator stakeTokenID
    pure { w with pool }
  else do
    let pool ← removeData w.pool dishonestValidator
    pure { w with pool }

def minorSlashBody (dishonestValidator disputer : Address) (w : World) :
    Except Revert (World × Unit) := do
  require (isAccusable w.pool dishonestValidator = true) (.AddressNotAccusable dishonestValidator)
  let (w, minerShares, payoutEth, payoutToken) ← slash contract w msg dishonestValidator
  let w ← restake contract w msg dishonestValidator minerShares
  let w ← transferEthAndTokens contract w msg disputer payoutEth payoutToken
  pure (w, ())

def minorSlash (dishonestValidator disputer : Address) : Except Revert World := do
  onlyETHDKG contract msg
  let (w, _) ← balanceShouldNotChange w (minorSlashBody contract msg dishonestValidator disputer)
  pure w

def skimExcessEth (to_ : Address) : Except Revert (World × ℕ) := do
  onlyFactory contract msg
  let excess := w.ethBalance
  let w ← safeTransferEth contract w msg to_ excess
  pure (w, excess)

def skimExcessToken (to_ : Address) : Except Revert (World × ℕ) := do
  onlyFactory contract msg
  let excess := w.tokenBalance
  let w ← safeTransferERC20 contract w to_ excess
  pure (w, excess)

inductive Call
  | initialize_ (stakeAmount maxNumValidators disputerReward maxIntervalWithoutSnapshots : ℕ)
  | setStakeAmount (stakeAmount : ℕ)
  | setMaxIntervalWithoutSnapshots (maxIntervalWithoutSnapshots : ℕ)
  | setMaxNumValidators (maxNumValidators : ℕ)
  | setDisputerReward (disputerReward : ℕ)
  | setLocation (ip : String)
  | scheduleMaintenance
  | initializeETHDKG
  | completeETHDKG
  | pauseConsensus
  | pauseConsensusOnArbitraryHeight (aliceNetHeight : ℕ)
  | registerValidators (validators : List Address) (stakerTokenIDs : List ℕ)
  | unregisterValidators (validators : List Address)
  | unregisterAllValidators
  | collectProfits
  | claimExitingNFTPosition
  | majorSlash (dishonestValidator disputer : Address)
  | minorSlash (dishonestValidator disputer : Address)
  | skimExcessEth (to_ : Address)
  | skimExcessToken (to_ : Address)

def exec : Call → Except Revert World
  | .initialize_ stakeAmount maxNumValidators disputerReward maxIntervalWithoutSnapshots =>
    initializePool contract w msg stakeAmount maxNumValidators disputerReward
      maxIntervalWithoutSnapshots
  | .setStakeAmount stakeAmount => setStakeAmount contract w msg stakeAmount
  | .setMaxIntervalWithoutSnapshots maxIntervalWithoutSnapshots =>
    setMaxIntervalWithoutSnapshots contract w msg maxIntervalWithoutSnapshots
  | .setMaxNumValidators maxNumValidators => setMaxNumValidators contract w msg maxNumValidators
  | .setDisputerReward disputerReward => setDisputerReward contract w msg disputerReward
  | .setLocation ip => setLocation w msg ip
  | .scheduleMaintenance => scheduleMaintenance contract w msg
  | .initializeETHDKG => initializeETHDKG contract w msg
  | .completeETHDKG => completeETHDKG contract w msg
  | .pauseConsensus => pauseConsensus contract w msg
  | .pauseConsensusOnArbitraryHeight aliceNetHeight =>
    pauseConsensusOnArbitraryHeight contract w msg aliceNetHeight
  | .registerValidators validators stakerTokenIDs =>
    registerValidators contract w msg validators stakerTokenIDs
  | .unregisterValidators validators => unregisterValidators contract w msg validators
  | .unregisterAllValidators => unregisterAllValidators contract w msg
  | .collectProfits => Prod.fst <$> collectProfits contract w msg
  | .claimExitingNFTPosition => Prod.fst <$> claimExitingNFTPosition contract w msg
  | .majorSlash dishonestValidator disputer => majorSlash contract w msg dishonestValidator disputer
  | .minorSlash dishonestValidator disputer => minorSlash contract w msg dishonestValidator disputer
  | .skimExcessEth to_ => Prod.fst <$> skimExcessEth contract w msg to_
  | .skimExcessToken to_ => Prod.fst <$> skimExcessToken contract w msg to_

/-- The pool right after its deployment. -/
def initial : Storage where
  initialized := false
  maxIntervalWithoutSnapshots := 0
  stakeAmount := 0
  maxNumValidators := 0
  disputerReward := 0
  isMaintenanceScheduled := false
  isConsensusRunning := false
  validators := ⟨[], fun _ => 0⟩
  exitingValidatorsData _ := ⟨0, 0⟩
  ipLocations _ := ""

end

end AliceNet.Bridge.ValidatorPool
