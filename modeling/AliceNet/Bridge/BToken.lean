import AliceNet.Bridge.Sigmoid

/-! The utility token, minted against Ether along a bonding curve. -/

namespace AliceNet.Bridge.BToken

open Outcome (require)

abbrev Address := ℕ

inductive Revert
  | InvalidBalance (contractBalance poolBalance : ℕ)
  | InvalidBurnAmount (amount : ℕ)
  | ContractsDisallowedDeposits (toAddress : Address)
  | DepositAmountZero
  | DepositBurnFail (amount : ℕ)
  | MinimumValueNotMet (amount minimumValue : ℕ)
  | InsufficientEth (amount minimum : ℕ)
  | MinimumMintNotMet (amount minimum : ℕ)
  | MinimumBurnNotMet (amount minimum : ℕ)
  | BurnAmountExceedsSupply (amount supply : ℕ)
  | InexistentRouterContract (contractAddr : Address)
  | InsufficientFee (amount fee : ℕ)
  | CannotSetRouterToZeroAddress
  | CannotTransferToZeroAddress
  | EthTransferFailed (sender to_ : Address) (amount : ℕ)
  | MutexLocked
  | OnlyFactory (sender expected : Address)
  | erc20 (reason : String)
  /-- A call to another contract reverts. -/
  | external (reason : String)
  | panic (code : ℕ)
  deriving DecidableEq, Repr

structure Deposit where
  accountType : UInt8
  account : Address
  value : ℕ
  deriving DecidableEq, Repr

inductive Mutex
  | unset
  | locked
  | unlocked
  deriving DecidableEq, Repr

/-- Storage, with the inherited ERC20 storage and the Ether that the chain records. -/
structure Storage where
  poolBalance : ℕ
  depositID : ℕ
  totalDeposited : ℕ
  deposits : ℕ → Deposit
  mutex : Mutex
  balances : Address → ℕ
  totalSupply : ℕ
  ethBalance : ℕ

/-- The contract's address and the immutables. -/
structure Contract where
  self : Address
  factory : Address

/-- A call's context, with what the other accounts answer during it. -/
structure Msg where
  sender : Address
  value : ℕ
  isContract : Address → Bool
  /-- Whether a plain Ether call to the address succeeds. -/
  receives : Address → Bool
  /-- The storage that the router leaves and its fee. The token is not locked meanwhile. -/
  routeDeposit : Storage → (sender : Address) → (routerVersion : UInt8) → (data : List UInt8) →
    Except Revert (Storage × ℕ)
  /-- The distribution's answer to `depositEth`. -/
  depositEth : ℕ → Except Revert Unit

def MARKET_SPREAD : ℕ := 4

def add256 : ℕ → ℕ → Except Revert ℕ := Word.add 256 (.panic 0x11)
def sub256 : ℕ → ℕ → Except Revert ℕ := Word.sub (.panic 0x11)
def mul256 : ℕ → ℕ → Except Revert ℕ := Word.mul 256 (.panic 0x11)

def p : ℕ → Except Revert ℕ := Sigmoid.p (.panic 0x11)
def pInverse : ℕ → Except Revert ℕ := Sigmoid.pInverse (.panic 0x11)

section

variable (contract : Contract) (s : Storage) (msg : Msg)

def erc20Mint (account : Address) (amount : ℕ) : Except Revert Storage := do
  require (account ≠ 0) (.erc20 "ERC20: mint to the zero address")
  let totalSupply ← add256 s.totalSupply amount
  let balance ← add256 (s.balances account) amount
  pure { s with totalSupply, balances := Function.update s.balances account balance }

def erc20Burn (account : Address) (amount : ℕ) : Except Revert Storage := do
  require (account ≠ 0) (.erc20 "ERC20: burn from the zero address")
  require (amount ≤ s.balances account) (.erc20 "ERC20: burn amount exceeds balance")
  let totalSupply ← sub256 s.totalSupply amount
  pure { s with
    totalSupply, balances := Function.update s.balances account (s.balances account - amount) }

def safeTransferEth (to_ : Address) (amount : ℕ) : Except Revert Storage :=
  if amount = 0 then pure s
  else do
    require (to_ ≠ 0) .CannotTransferToZeroAddress
    require (amount ≤ s.ethBalance ∧ to_ ≠ contract.self ∧ msg.receives to_)
      (.EthTransferFailed contract.self to_ amount)
    pure { s with ethBalance := s.ethBalance - amount }

def safeTransferEthWithMagic (amount : ℕ) : Except Revert Storage := do
  require (amount ≤ s.ethBalance) (.external "insufficient balance")
  msg.depositEth amount
  pure { s with ethBalance := s.ethBalance - amount }

def onlyFactory : Except Revert Unit :=
  require (msg.sender = contract.factory) (.OnlyFactory msg.sender contract.factory)

def ethToBTokens (poolBalance numEth : ℕ) : Except Revert ℕ := do
  let grown ← p (← add256 poolBalance numEth)
  sub256 grown (← p poolBalance)

def bTokensToEth (poolBalance totalSupply numBTK : ℕ) : Except Revert ℕ := do
  require (numBTK ≤ totalSupply) (.BurnAmountExceedsSupply numBTK totalSupply)
  let before ← pInverse totalSupply
  let rest ← pInverse (← sub256 totalSupply numBTK)
  pure (min poolBalance (← sub256 before rest))

def getEthToMintBTokens (totalSupply numBTK : ℕ) : Except Revert ℕ := do
  let grown ← pInverse (← add256 totalSupply numBTK)
  let before ← pInverse totalSupply
  mul256 (← sub256 grown before) MARKET_SPREAD

/-- `_distribute`, under the lock -/
def distributeInternal : Except Revert (Storage × Bool) := do
  let excess ← sub256 s.ethBalance s.poolBalance
  if excess = 0 then pure (s, true)
  else do
    let t ← safeTransferEthWithMagic s msg excess
    require (s.poolBalance ≤ t.ethBalance) (.InvalidBalance t.ethBalance s.poolBalance)
    pure (t, true)

def destroyTokens (account : Address) (numBTK : ℕ) : Except Revert (Storage × Bool) := do
  require (numBTK ≠ 0) (.InvalidBurnAmount numBTK)
  let poolBalance ← sub256 s.poolBalance (← bTokensToEth s.poolBalance s.totalSupply numBTK)
  let s ← erc20Burn { s with poolBalance } account numBTK
  pure (s, true)

def doDepositCommon (accountType : UInt8) (to_ : Address) (amount : ℕ) :
    Except Revert (Storage × ℕ) := do
  let depositID ← add256 s.depositID 1
  let deposits := Function.update s.deposits depositID ⟨accountType, to_, amount⟩
  let totalDeposited ← add256 s.totalDeposited amount
  pure ({ s with deposits, totalDeposited, depositID }, depositID)

/-- `_deposit` -/
def depositInternal (accountType : UInt8) (to_ : Address) (amount : ℕ) :
    Except Revert (Storage × ℕ) := do
  require (msg.isContract to_ = false) (.ContractsDisallowedDeposits to_)
  require (amount ≠ 0) .DepositAmountZero
  let (s, burnt) ← destroyTokens s msg.sender amount
  require (burnt = true) (.DepositBurnFail amount)
  doDepositCommon s accountType to_ amount

def virtualDeposit (accountType : UInt8) (to_ : Address) (amount : ℕ) :
    Except Revert (Storage × ℕ) := do
  require (msg.isContract to_ = false) (.ContractsDisallowedDeposits to_)
  require (amount ≠ 0) .DepositAmountZero
  doDepositCommon s accountType to_ amount

def mintDepositInternal (accountType : UInt8) (to_ : Address) (minBTK numEth : ℕ) :
    Except Revert (Storage × ℕ) := do
  require (msg.isContract to_ = false) (.ContractsDisallowedDeposits to_)
  require (MARKET_SPREAD ≤ numEth) (.MinimumValueNotMet numEth MARKET_SPREAD)
  let amount ← ethToBTokens s.poolBalance (numEth / MARKET_SPREAD)
  require (minBTK ≤ amount) (.InsufficientEth amount minBTK)
  doDepositCommon s accountType to_ amount

/-- `_mint` -/
def mintInternal (to_ : Address) (numEth minBTK : ℕ) : Except Revert (Storage × ℕ) := do
  require (MARKET_SPREAD ≤ numEth) (.MinimumValueNotMet numEth MARKET_SPREAD)
  let numBTK ← ethToBTokens s.poolBalance (numEth / MARKET_SPREAD)
  require (minBTK ≤ numBTK) (.MinimumMintNotMet numBTK minBTK)
  let poolBalance ← add256 s.poolBalance (numEth / MARKET_SPREAD)
  let s ← erc20Mint { s with poolBalance } to_ numBTK
  pure (s, numBTK)

/-- `_burn` -/
def burnInternal (sender to_ : Address) (numBTK minEth : ℕ) : Except Revert (Storage × ℕ) := do
  require (numBTK ≠ 0) (.InvalidBurnAmount numBTK)
  let numEth ← bTokensToEth s.poolBalance s.totalSupply numBTK
  require (minEth ≤ numEth) (.MinimumBurnNotMet numEth minEth)
  let poolBalance ← sub256 s.poolBalance numEth
  let s ← erc20Burn { s with poolBalance } sender numBTK
  let s ← safeTransferEth contract s msg to_ numEth
  pure (s, numEth)

/-- The Ether sent along has arrived when a payable function starts. -/
def payable : Storage :=
  { s with ethBalance := s.ethBalance + msg.value }

def nonPayable : Except Revert Unit :=
  require (msg.value = 0) (.external "function is not payable")

def distribute : Except Revert (Storage × Bool) := do
  nonPayable msg
  require (s.mutex ≠ .locked) .MutexLocked
  let (s, done) ← distributeInternal { s with mutex := .locked } msg
  pure ({ s with mutex := .unlocked }, done)

def deposit (accountType : UInt8) (to_ : Address) (amount : ℕ) : Except Revert (Storage × ℕ) := do
  nonPayable msg
  depositInternal s msg accountType to_ amount

def virtualMintDeposit (accountType : UInt8) (to_ : Address) (amount : ℕ) :
    Except Revert (Storage × ℕ) := do
  nonPayable msg
  onlyFactory contract msg
  virtualDeposit s msg accountType to_ amount

def mintDeposit (accountType : UInt8) (to_ : Address) (minBTK : ℕ) : Except Revert (Storage × ℕ) :=
  mintDepositInternal (payable s msg) msg accountType to_ minBTK msg.value

def mint (minBTK : ℕ) : Except Revert (Storage × ℕ) :=
  mintInternal (payable s msg) msg.sender msg.value minBTK

def mintTo (to_ : Address) (minBTK : ℕ) : Except Revert (Storage × ℕ) :=
  mintInternal (payable s msg) to_ msg.value minBTK

def destroyBTokens (numBTK : ℕ) : Except Revert (Storage × Bool) := do
  nonPayable msg
  let (s, _) ← destroyTokens s msg.sender numBTK
  pure (s, true)

def payFee (bTokenFee : ℕ) : Except Revert Storage :=
  if 0 < msg.value then do
    let ethFee ← getEthToMintBTokens s.totalSupply bTokenFee
    require (ethFee ≤ msg.value) (.InsufficientFee msg.value ethFee)
    safeTransferEth contract s msg msg.sender (msg.value - ethFee)
  else do
    let (s, _) ← destroyTokens s msg.sender bTokenFee
    pure s

def depositTokensOnBridges (routerVersion : UInt8) (data : List UInt8) : Except Revert Storage := do
  let (s, bTokenFee) ← msg.routeDeposit (payable s msg) msg.sender routerVersion data
  payFee contract s msg bTokenFee

def burn (amount minEth : ℕ) : Except Revert (Storage × ℕ) := do
  nonPayable msg
  burnInternal contract s msg msg.sender msg.sender amount minEth

def burnTo (to_ : Address) (amount minEth : ℕ) : Except Revert (Storage × ℕ) := do
  nonPayable msg
  burnInternal contract s msg msg.sender to_ amount minEth

inductive Call
  | distribute
  | deposit (accountType : UInt8) (to_ : Address) (amount : ℕ)
  | virtualMintDeposit (accountType : UInt8) (to_ : Address) (amount : ℕ)
  | mintDeposit (accountType : UInt8) (to_ : Address) (minBTK : ℕ)
  | mint (minBTK : ℕ)
  | mintTo (to_ : Address) (minBTK : ℕ)
  | destroyBTokens (numBTK : ℕ)
  | depositTokensOnBridges (routerVersion : UInt8) (data : List UInt8)
  | burn (amount minEth : ℕ)
  | burnTo (to_ : Address) (amount minEth : ℕ)

def exec : Call → Except Revert Storage
  | .distribute => Prod.fst <$> distribute s msg
  | .deposit accountType to_ amount => Prod.fst <$> deposit s msg accountType to_ amount
  | .virtualMintDeposit accountType to_ amount =>
    Prod.fst <$> virtualMintDeposit contract s msg accountType to_ amount
  | .mintDeposit accountType to_ minBTK => Prod.fst <$> mintDeposit s msg accountType to_ minBTK
  | .mint minBTK => Prod.fst <$> mint s msg minBTK
  | .mintTo to_ minBTK => Prod.fst <$> mintTo s msg to_ minBTK
  | .destroyBTokens numBTK => Prod.fst <$> destroyBTokens s msg numBTK
  | .depositTokensOnBridges routerVersion data =>
    depositTokensOnBridges contract s msg routerVersion data
  | .burn amount minEth => Prod.fst <$> burn contract s msg amount minEth
  | .burnTo to_ amount minEth => Prod.fst <$> burnTo contract s msg to_ amount minEth

def construct (msg : Msg) (centralBridgeRouter : Address) (ethBalance : ℕ) :
    Except Revert Storage := do
  require (centralBridgeRouter ≠ 0) .CannotSetRouterToZeroAddress
  require (msg.isContract centralBridgeRouter = true)
    (.InexistentRouterContract centralBridgeRouter)
  let s : Storage := ⟨0, 0, 0, fun _ => ⟨0, 0, 0⟩, .unset, fun _ => 0, 0, ethBalance⟩
  let (s, _) ← virtualDeposit s msg 1 0xba7809A4114eEF598132461f3202b5013e834CD5 500000000000
  pure s

end

end AliceNet.Bridge.BToken
