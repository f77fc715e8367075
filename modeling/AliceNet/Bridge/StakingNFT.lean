import AliceNet.Library.Word

/-! The staking contract: positions of staked ALCA that share two profit streams. -/

namespace AliceNet.Bridge.StakingNFT

open Function

abbrev Address := ℕ

structure Position where
  shares : ℕ
  freeAfter : ℕ
  withdrawFreeAfter : ℕ
  accumulatorEth : ℕ
  accumulatorToken : ℕ
  deriving Repr, DecidableEq

structure Accumulator where
  accumulator : ℕ
  slush : ℕ
  deriving Repr, DecidableEq

inductive Revert
  | callerNotTokenOwner (caller : Address)
  | lockDurationGreaterThanGovernanceLock
  | lockDurationGreaterThanMintLock
  | lockDurationWithdrawTimeNotReached
  | invalidTokenId (tokenId : ℕ)
  | mintAmountExceedsMaximumSupply
  | freeAfterTimeNotReached
  | balanceLessThanReserve (balance reserve : ℕ)
  | slushTooLarge (slush : ℕ)
  | mintAmountZero
  | circuitBreakerOpened
  | badMagic (magic : ℕ)
  | onlyFactory (sender expected : Address)
  | onlyGovernance (sender expected : Address)
  | cannotTransferToZeroAddress
  | ethTransferFailed (sender to_ : Address) (amount : ℕ)
  | cannotCallContractMethodsOnZeroAddress
  | erc20 (reason : String)
  | erc721 (reason : String)
  | panic (code : ℕ)
  deriving Repr, DecidableEq

def MAX_MINT_LOCK : ℕ := 1051200
def MAX_GOVERNANCE_LOCK : ℕ := 172800
def ACCUMULATOR_SCALE_FACTOR : ℕ := 1000000000000000000
def MAGIC_VALUE : ℕ := 42

structure Storage where
  circuitBreaker : Bool
  counter : ℕ
  shares : ℕ
  tokenState : Accumulator
  ethState : Accumulator
  positions : ℕ → Position
  reserveEth : ℕ
  reserveToken : ℕ
  owners : ℕ → Option Address
  ethBalance : ℕ
  tokenBalance : ℕ

/-- All Ether and all ALCA, scaled, leave a bit of a word free: about 2^197 units of each. -/
structure Chain where
  self : Address
  factory : Address
  governance : Address
  aToken : Address
  /-- Whether a plain Ether call to the address succeeds. -/
  receives : Address → Bool
  ethSupply : ℕ
  aTokenSupply : ℕ
  aToken_ne_zero : aToken ≠ 0
  ethSupply_scaled : ACCUMULATOR_SCALE_FACTOR * ethSupply < 2 ^ 255
  aTokenSupply_scaled : ACCUMULATOR_SCALE_FACTOR * aTokenSupply < 2 ^ 255

structure Msg where
  sender : Address
  value : ℕ
  allowance : ℕ
  number : ℕ
  deriving Repr, DecidableEq

/-- Solidity's checked arithmetic on `uint256`. -/
def add256 : ℕ → ℕ → Except Revert ℕ := Word.add 256 (.panic 0x11)
def mul256 : ℕ → ℕ → Except Revert ℕ := Word.mul 256 (.panic 0x11)
def sub256 : ℕ → ℕ → Except Revert ℕ := Word.sub (.panic 0x11)
def add32 : ℕ → ℕ → Except Revert ℕ := Word.add 32 (.panic 0x11)

open Outcome (require)

section

variable (chain : Chain) (σ : Storage) (msg : Msg)

def ownerOf (tokenID : ℕ) : Except Revert Address :=
  match σ.owners tokenID with
  | some owner => .ok owner
  | none => .error (.erc721 "ERC721: invalid token ID")

def onlyIfTokenExists (tokenID : ℕ) : Except Revert Unit :=
  require (σ.owners tokenID ≠ none) (.invalidTokenId tokenID)

def erc721Mint (to_ : Address) (tokenID : ℕ) : Except Revert Storage := do
  require (to_ ≠ 0) (.erc721 "ERC721: mint to the zero address")
  require (σ.owners tokenID = none) (.erc721 "ERC721: token already minted")
  pure { σ with owners := update σ.owners tokenID (some to_) }

def erc721Burn (tokenID : ℕ) : Except Revert Storage := do
  let _ ← ownerOf σ tokenID
  pure { σ with owners := update σ.owners tokenID none }

def safeTransferFromERC20 (amount : ℕ) : Except Revert Storage :=
  if amount = 0 then pure σ
  else do
    require (chain.aToken ≠ 0) .cannotCallContractMethodsOnZeroAddress
    require (amount ≤ msg.allowance) (.erc20 "ERC20: insufficient allowance")
    pure { σ with tokenBalance := σ.tokenBalance + amount }

def safeTransferERC20 (to_ : Address) (amount : ℕ) : Except Revert Storage :=
  if amount = 0 then pure σ
  else do
    require (chain.aToken ≠ 0) .cannotCallContractMethodsOnZeroAddress
    require (to_ ≠ 0) (.erc20 "ERC20: transfer to the zero address")
    require (amount ≤ σ.tokenBalance) (.erc20 "ERC20: transfer amount exceeds balance")
    pure { σ with tokenBalance := if to_ = chain.self then σ.tokenBalance else
      σ.tokenBalance - amount }

def safeTransferEth (to_ : Address) (amount : ℕ) : Except Revert Storage :=
  if amount = 0 then pure σ
  else do
    require (to_ ≠ 0) .cannotTransferToZeroAddress
    require (amount ≤ σ.ethBalance ∧ chain.receives to_ = true)
      (.ethTransferFailed chain.self to_ amount)
    pure { σ with ethBalance := if to_ = chain.self then σ.ethBalance else σ.ethBalance - amount }

def slushSkim (shares accumulator slush : ℕ) : Except Revert (ℕ × ℕ) :=
  if 0 < shares then do
    let deltaAccumulator := slush / shares
    let skimmed ← mul256 deltaAccumulator shares
    let slush ← sub256 slush skimmed
    let accumulator ← add256 accumulator deltaAccumulator
    pure (if accumulator > 2 ^ 168 - 1 then accumulator % 2 ^ 168 else accumulator, slush)
  else pure (accumulator, slush)

def deposit (delta : ℕ) (state : Accumulator) : Except Revert Accumulator := do
  let scaled ← mul256 delta ACCUMULATOR_SCALE_FACTOR
  let slush ← add256 state.slush scaled
  require (slush < 2 ^ 167) (.slushTooLarge slush)
  pure { state with slush }

def accumulatorSteps (accumulator positionAccumulatorValue : ℕ) : Except Revert (ℕ × ℕ) :=
  if positionAccumulatorValue > accumulator then do
    let accumulatorDelta ← sub256 (2 ^ 168) positionAccumulatorValue
    let accumulatorDelta ← add256 accumulatorDelta accumulator
    pure (accumulatorDelta, accumulator)
  else do
    let accumulatorDelta ← sub256 accumulator positionAccumulatorValue
    let positionAccumulatorValue ← add256 positionAccumulatorValue accumulatorDelta
    pure (accumulatorDelta, positionAccumulatorValue)

/-- A position that holds all shares also takes the slush. -/
def flushSlush (shares positionShares payout slush : ℕ) : Except Revert (ℕ × ℕ) :=
  if shares = positionShares then do
    let payout ← add256 payout slush
    pure (payout, 0)
  else pure (payout, slush)

def collect (shares : ℕ) (state : Accumulator) (p : Position) (positionAccumulatorValue : ℕ) :
    Except Revert (Accumulator × Position × ℕ × ℕ) := do
  let (accumulator, slush) ← slushSkim shares state.accumulator state.slush
  let (accumulatorDelta, positionAccumulatorValue) ← accumulatorSteps accumulator
    positionAccumulatorValue
  let payout ← mul256 accumulatorDelta p.shares
  let (payout, slush) ← flushSlush shares p.shares payout slush
  let scaled ← mul256 (payout / ACCUMULATOR_SCALE_FACTOR) ACCUMULATOR_SCALE_FACTOR
  let payoutRemainder ← sub256 payout scaled
  let slush ← add256 slush payoutRemainder
  pure (⟨accumulator, slush⟩, p, positionAccumulatorValue, payout / ACCUMULATOR_SCALE_FACTOR)

def collectToken (p : Position) : Except Revert (Storage × Position × ℕ) := do
  let (tokenState, p, acc, payout) ← collect σ.shares σ.tokenState p p.accumulatorToken
  pure ({ σ with tokenState }, { p with accumulatorToken := acc }, payout)

def collectEth (p : Position) : Except Revert (Storage × Position × ℕ) := do
  let (ethState, p, acc, payout) ← collect σ.shares σ.ethState p p.accumulatorEth
  pure ({ σ with ethState }, { p with accumulatorEth := acc }, payout)

def getPositionToCollect (tokenID : ℕ) : Except Revert Position := do
  let owner ← ownerOf σ tokenID
  require (msg.sender = owner) (.callerNotTokenOwner msg.sender)
  require ((σ.positions tokenID).withdrawFreeAfter < msg.number) .lockDurationWithdrawTimeNotReached
  pure (σ.positions tokenID)

def collectEthTo (to_ : Address) (tokenID : ℕ) : Except Revert (Storage × ℕ) := do
  let position ← getPositionToCollect σ msg tokenID
  let (σ, position, payout) ← collectEth σ position
  let reserveEth ← sub256 σ.reserveEth payout
  let σ := { σ with positions := update σ.positions tokenID position, reserveEth }
  let σ ← safeTransferEth chain σ to_ payout
  pure (σ, payout)

def collectTokenTo (to_ : Address) (tokenID : ℕ) : Except Revert (Storage × ℕ) := do
  let position ← getPositionToCollect σ msg tokenID
  let (σ, position, payout) ← collectToken σ position
  let reserveToken ← sub256 σ.reserveToken payout
  let σ := { σ with positions := update σ.positions tokenID position, reserveToken }
  let σ ← safeTransferERC20 chain σ to_ payout
  pure (σ, payout)

def collectAllProfitsTo (to_ : Address) (tokenID : ℕ) : Except Revert (Storage × ℕ × ℕ) := do
  let (σ, payoutToken) ← collectTokenTo chain σ msg to_ tokenID
  let (σ, payoutEth) ← collectEthTo chain σ msg to_ tokenID
  pure (σ, payoutToken, payoutEth)

def skimBoth : Except Revert Storage :=
  if 0 < σ.shares then do
    let (accumulatorEth, slushEth) ← slushSkim σ.shares σ.ethState.accumulator σ.ethState.slush
    let (accumulatorToken, slushToken) ← slushSkim σ.shares σ.tokenState.accumulator
      σ.tokenState.slush
    pure { σ with
      ethState := ⟨accumulatorEth, slushEth⟩
      tokenState := ⟨accumulatorToken, slushToken⟩ }
  else pure σ

def mintNFT (to_ : Address) (amount : ℕ) : Except Revert (Storage × ℕ) := do
  require (amount ≠ 0) .mintAmountZero
  require (amount ≤ 2 ^ 224 - 1) .mintAmountExceedsMaximumSupply
  let σ ← safeTransferFromERC20 chain σ msg amount
  let tokenID ← add256 σ.counter 1
  let σ ← skimBoth { σ with counter := tokenID }
  let shares ← add256 σ.shares amount
  let freeAfter ← add32 (msg.number % 2 ^ 32) 1
  let position : Position := {
    shares := amount % 2 ^ 224, freeAfter, withdrawFreeAfter := freeAfter
    accumulatorEth := σ.ethState.accumulator, accumulatorToken := σ.tokenState.accumulator }
  let reserveToken ← add256 σ.reserveToken amount
  let σ := { σ with shares, positions := update σ.positions tokenID position, reserveToken }
  let σ ← erc721Mint σ to_ tokenID
  pure (σ, tokenID)

def burnNFT (sender to_ : Address) (tokenID : ℕ) : Except Revert (Storage × ℕ × ℕ) := do
  let owner ← ownerOf σ tokenID
  require (sender = owner) (.callerNotTokenOwner msg.sender)
  let p := σ.positions tokenID
  require (p.freeAfter < msg.number ∧ p.withdrawFreeAfter < msg.number) .freeAfterTimeNotReached
  let (σ, p, payoutEth) ← collectEth σ p
  let (σ, p, payoutToken) ← collectToken σ p
  let payoutToken ← add256 payoutToken p.shares
  let shares ← sub256 σ.shares p.shares
  let reserveToken ← sub256 σ.reserveToken payoutToken
  let reserveEth ← sub256 σ.reserveEth payoutEth
  let σ := { σ with
    shares, reserveToken, reserveEth, positions := update σ.positions tokenID ⟨0, 0, 0, 0, 0⟩ }
  let σ ← erc721Burn σ tokenID
  let σ ← safeTransferERC20 chain σ to_ payoutToken
  let σ ← safeTransferEth chain σ to_ payoutEth
  pure (σ, payoutEth, payoutToken)

def lockPositionInternal (tokenID duration : ℕ) : Except Revert (Storage × ℕ) := do
  onlyIfTokenExists σ tokenID
  let p := σ.positions tokenID
  let freeDur ← add32 (msg.number % 2 ^ 32) (duration % 2 ^ 32)
  let p := { p with freeAfter := if freeDur > p.freeAfter then freeDur else p.freeAfter }
  pure ({ σ with positions := update σ.positions tokenID p }, p.shares)

def lockWithdrawInternal (tokenID duration : ℕ) : Except Revert (Storage × ℕ) := do
  onlyIfTokenExists σ tokenID
  let p := σ.positions tokenID
  let freeDur ← add256 msg.number duration
  let p := { p with withdrawFreeAfter := if freeDur > p.withdrawFreeAfter then freeDur else
    p.withdrawFreeAfter }
  pure ({ σ with positions := update σ.positions tokenID p }, p.shares)

def withCircuitBreaker : Except Revert Unit :=
  require (σ.circuitBreaker = false) .circuitBreakerOpened

def checkMagic (magic : ℕ) : Except Revert Unit :=
  require (magic = MAGIC_VALUE) (.badMagic magic)

inductive Call
  | mint (amount : ℕ)
  | mintTo (to_ : Address) (amount lockDuration : ℕ)
  | burn (tokenID : ℕ)
  | burnTo (to_ : Address) (tokenID : ℕ)
  | collectEth (tokenID : ℕ)
  | collectToken (tokenID : ℕ)
  | collectAllProfits (tokenID : ℕ)
  | collectEthTo (to_ : Address) (tokenID : ℕ)
  | collectTokenTo (to_ : Address) (tokenID : ℕ)
  | collectAllProfitsTo (to_ : Address) (tokenID : ℕ)
  | depositEth (magic : ℕ)
  | depositToken (magic amount : ℕ)
  | lockPosition (caller : Address) (tokenID lockDuration : ℕ)
  | lockOwnPosition (tokenID lockDuration : ℕ)
  | lockWithdraw (tokenID lockDuration : ℕ)
  | tripCB
  | skimExcessEth (to_ : Address)
  | skimExcessToken (to_ : Address)
  deriving Repr, DecidableEq

def mintTo (to_ : Address) (amount lockDuration : ℕ) : Except Revert (Storage × ℕ) := do
  withCircuitBreaker σ
  require (lockDuration ≤ MAX_MINT_LOCK) .lockDurationGreaterThanMintLock
  let (σ, tokenID) ← mintNFT chain σ msg to_ amount
  if lockDuration > 0 then do
    let (σ, _) ← lockPositionInternal σ msg tokenID lockDuration
    pure (σ, tokenID)
  else pure (σ, tokenID)

def lockAllowed (caller : Address) (tokenID lockDuration : ℕ) : Except Revert Unit := do
  let owner ← ownerOf σ tokenID
  require (caller = owner) (.callerNotTokenOwner msg.sender)
  require (lockDuration ≤ MAX_GOVERNANCE_LOCK) .lockDurationGreaterThanGovernanceLock

def lockPosition (caller : Address) (tokenID lockDuration : ℕ) : Except Revert (Storage × ℕ) := do
  withCircuitBreaker σ
  require (msg.sender = chain.governance) (.onlyGovernance msg.sender chain.governance)
  lockAllowed σ msg caller tokenID lockDuration
  lockPositionInternal σ msg tokenID lockDuration

def lockOwnPosition (tokenID lockDuration : ℕ) : Except Revert (Storage × ℕ) := do
  withCircuitBreaker σ
  lockAllowed σ msg msg.sender tokenID lockDuration
  lockPositionInternal σ msg tokenID lockDuration

def lockWithdraw (tokenID lockDuration : ℕ) : Except Revert (Storage × ℕ) := do
  withCircuitBreaker σ
  lockAllowed σ msg msg.sender tokenID lockDuration
  lockWithdrawInternal σ msg tokenID lockDuration

def depositToken (magic amount : ℕ) : Except Revert Storage := do
  withCircuitBreaker σ
  checkMagic magic
  let σ ← safeTransferFromERC20 chain σ msg amount
  let tokenState ← deposit amount σ.tokenState
  let reserveToken ← add256 σ.reserveToken amount
  pure { σ with tokenState, reserveToken }

def depositEth (magic : ℕ) : Except Revert Storage := do
  let σ := { σ with ethBalance := σ.ethBalance + msg.value }
  withCircuitBreaker σ
  checkMagic magic
  let ethState ← deposit msg.value σ.ethState
  let reserveEth ← add256 σ.reserveEth msg.value
  pure { σ with ethState, reserveEth }

def tripCB : Except Revert Storage := do
  require (msg.sender = chain.factory) (.onlyFactory msg.sender chain.factory)
  withCircuitBreaker σ
  pure { σ with circuitBreaker := true }

def skimExcessEth (to_ : Address) : Except Revert Storage := do
  require (msg.sender = chain.factory) (.onlyFactory msg.sender chain.factory)
  require (σ.reserveEth ≤ σ.ethBalance) (.balanceLessThanReserve σ.ethBalance σ.reserveEth)
  safeTransferEth chain σ to_ (σ.ethBalance - σ.reserveEth)

def skimExcessToken (to_ : Address) : Except Revert Storage := do
  require (msg.sender = chain.factory) (.onlyFactory msg.sender chain.factory)
  require (σ.reserveToken ≤ σ.tokenBalance) (.balanceLessThanReserve σ.tokenBalance σ.reserveToken)
  safeTransferERC20 chain σ to_ (σ.tokenBalance - σ.reserveToken)

def exec : Call → Except Revert Storage
  | .mint amount => do withCircuitBreaker σ; Prod.fst <$> mintNFT chain σ msg msg.sender amount
  | .mintTo to_ amount lockDuration => Prod.fst <$> mintTo chain σ msg to_ amount lockDuration
  | .burn tokenID => Prod.fst <$> burnNFT chain σ msg msg.sender msg.sender tokenID
  | .burnTo to_ tokenID => Prod.fst <$> burnNFT chain σ msg msg.sender to_ tokenID
  | .collectEth tokenID => Prod.fst <$> collectEthTo chain σ msg msg.sender tokenID
  | .collectToken tokenID => Prod.fst <$> collectTokenTo chain σ msg msg.sender tokenID
  | .collectAllProfits tokenID => Prod.fst <$> collectAllProfitsTo chain σ msg msg.sender tokenID
  | .collectEthTo to_ tokenID => Prod.fst <$> collectEthTo chain σ msg to_ tokenID
  | .collectTokenTo to_ tokenID => Prod.fst <$> collectTokenTo chain σ msg to_ tokenID
  | .collectAllProfitsTo to_ tokenID => Prod.fst <$> collectAllProfitsTo chain σ msg to_ tokenID
  | .depositEth magic => depositEth σ msg magic
  | .depositToken magic amount => depositToken chain σ msg magic amount
  | .lockPosition caller tokenID lockDuration =>
    Prod.fst <$> lockPosition chain σ msg caller tokenID lockDuration
  | .lockOwnPosition tokenID lockDuration => Prod.fst <$> lockOwnPosition σ msg tokenID lockDuration
  | .lockWithdraw tokenID lockDuration => Prod.fst <$> lockWithdraw σ msg tokenID lockDuration
  | .tripCB => tripCB chain σ msg
  | .skimExcessEth to_ => skimExcessEth chain σ msg to_
  | .skimExcessToken to_ => skimExcessToken chain σ msg to_

def initial : Storage where
  circuitBreaker := false
  counter := 0
  shares := 0
  tokenState := ⟨0, 0⟩
  ethState := ⟨0, 0⟩
  positions := fun _ => ⟨0, 0, 0, 0, 0⟩
  reserveEth := 0
  reserveToken := 0
  owners := fun _ => none
  ethBalance := 0
  tokenBalance := 0

/-- The sender can bring at most what exists outside the contract. -/
def Msg.Funded : Prop :=
  σ.ethBalance + msg.value ≤ chain.ethSupply ∧ σ.tokenBalance + msg.allowance ≤ chain.aTokenSupply

end

inductive Step (chain : Chain) (σ : Storage) : Storage → Prop
  | call (msg : Msg) (call : Call) (funded : msg.Funded chain σ) (ran : exec chain σ msg call =
      .ok σ') :
      Step chain σ σ'
  | transfer (tokenID : ℕ) (to_ : Address) (owned : σ.owners tokenID ≠ none) (nonzero : to_ ≠ 0) :
      Step chain σ { σ with owners := update σ.owners tokenID (some to_) }
  | receive (eth token : ℕ) (ethFunded : σ.ethBalance + eth ≤ chain.ethSupply)
      (tokenFunded : σ.tokenBalance + token ≤ chain.aTokenSupply) :
      Step chain σ { σ with ethBalance := σ.ethBalance + eth, tokenBalance := σ.tokenBalance +
        token }

def Reachable (chain : Chain) : Storage → Prop :=
  Relation.ReflTransGen (Step chain) initial

end AliceNet.Bridge.StakingNFT
