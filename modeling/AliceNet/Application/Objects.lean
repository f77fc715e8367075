import AliceNet.BadgerTrie.Sync
import AliceNet.Consensus.Objects
import AliceNet.Library.Word

/-! The objects of a transaction, as decoding leaves them: no part is missing and every length is
right. -/

namespace AliceNet.Application

open Consensus (Fault EpochLength epochOf)
open Outcome (require)

abbrev Bytes20 := BitVec 160

def MaxUint32 : ℕ := 2 ^ 32 - 1
def MaxTxVectorLength : ℕ := 128
def BaseDatasizeConst : ℕ := 376
def DSPIMinDeposit : ℕ := BaseDatasizeConst
def MaxDataStoreSize : ℕ := 2097152

namespace Uint256

def add (a b : ℕ) : Except Fault ℕ :=
  Word.add 256 (.invalid "Error in Uint256.Add: overflow") a b

def sub (a b : ℕ) : Except Fault ℕ :=
  Word.sub (.invalid "Error in Uint256.Sub: overflow") a b

def mul (a b : ℕ) : Except Fault ℕ :=
  Word.mul 256 (.invalid "Error in Uint256.Mul: overflow") a b

def div (a b : ℕ) : Except Fault ℕ := do
  require (b ≠ 0) (.invalid "Error in Uint256.Mod: Cannot divide by 0")
  pure (a / b)

def toUint32 (a : ℕ) : Except Fault ℕ := do
  require (a ≤ MaxUint32) (.invalid "Error in Uint256.ToUint32: overflow")
  pure a

end Uint256

def numEpochsEquation (dataSize deposit : ℕ) : Except Fault ℕ := do
  require (dataSize ≤ MaxDataStoreSize) (.invalid "numEpochsEquation: dataSize is too large")
  let tmp ← Uint256.div deposit (dataSize + BaseDatasizeConst)
  require (2 ≤ tmp)
    (.invalid "numEpochsEquation: invalid dataSize and deposit causing integer overflow")
  Uint256.toUint32 (tmp - 2)

def baseDepositEquation (dataSize numEpochs : ℕ) : Except Fault ℕ := do
  require (dataSize ≤ MaxDataStoreSize) (.invalid "baseDepositEquation: dataSize is too large")
  pure ((dataSize + BaseDatasizeConst) * (2 + numEpochs))

def rewardDepositEquation (deposit dataSize epochInitial epochFinal : ℕ) : Except Fault ℕ := do
  require (epochInitial ≤ epochFinal) (.invalid "rewardDepositEquation: epochFinal < epochInitial")
  let epochDiff := epochFinal - epochInitial
  let epochCost := BaseDatasizeConst + dataSize
  let numEpochs ← numEpochsEquation dataSize deposit
  if numEpochs < epochDiff then pure epochCost
  else
    let currentDeposit ← baseDepositEquation dataSize epochDiff
    let tmp ← Uint256.sub deposit currentDeposit
    Uint256.add tmp (2 * epochCost)

inductive CurveSpec
  | secp256k1
  | bn256Eth
  deriving DecidableEq, Repr

structure Owner where
  curveSpec : CurveSpec
  account : Bytes20
  deriving DecidableEq, Repr

def CurveSpec.byte : CurveSpec → UInt8
  | .secp256k1 => 1
  | .bn256Eth => 2

def Owner.marshalBinary (owner : Owner) : Bytes :=
  owner.curveSpec.byte :: Bytes.bigEndian 20 owner.account.toNat

structure DSPreImage where
  chainID : ℕ
  index : Bytes32
  issuedAt : ℕ
  deposit : ℕ
  rawData : Bytes
  txOutIdx : ℕ
  owner : Owner
  fee : ℕ
  deriving DecidableEq, Repr

namespace DSPreImage

def dataSize (b : DSPreImage) : ℕ := b.rawData.length % 2 ^ 32

def validateDeposit (b : DSPreImage) : Except Fault Unit := do
  require (b.deposit ≠ 0) (.invalid "dspi.validateDeposit; dspi.deposit is zero")
  require (b.chainID ≠ 0) (.invalid "dspi.validateDeposit; dspi.chainID is zero")
  require (b.issuedAt ≠ 0) (.invalid "dspi.validateDeposit; dspi.issuedAt is zero")
  require (b.dataSize ≠ 0) (.invalid "dspi.validateDeposit; dspi.rawData has length zero")
  require (b.dataSize ≤ MaxDataStoreSize)
    (.invalid "dspi.validateDeposit; dspi.rawData is too large")
  let numEpochs ← numEpochsEquation b.dataSize b.deposit
  require (numEpochs ≠ 0)
    (.invalid "dspi.validateDeposit; invalid deposit: storing for zero epochs")
  let deposit ← baseDepositEquation b.dataSize numEpochs
  require (deposit = b.deposit)
    (.invalid "dspi.validateDeposit; invalid deposit: does not match computed value")

def validate (b : DSPreImage) : Except Fault Unit := do
  require (1 ≤ b.chainID) (.invalid "dspreimage capn obj is not valid; invalid ChainID")
  require (b.index ≠ 0) (.invalid "dspreimage capn obj is not valid; invalid index; all zeros")
  require (1 ≤ b.issuedAt) (.invalid "dspreimage capn obj is not valid; invalid IssuedAt")
  require (DSPIMinDeposit ≤ b.deposit)
    (.invalid "dspreimage capn obj is not valid; invalid Deposit: less than minimum possible")
  require (b.rawData ≠ [])
    (.invalid "dspreimage capn obj is not valid: invalid RawData; zero byte length")
  require (b.txOutIdx < MaxTxVectorLength)
    (.invalid "dspreimage capn obj is not valid: output index is too large")

def remainingValue (b : DSPreImage) (currentHeight : ℕ) : Except Fault ℕ := do
  require (b.issuedAt ≠ 0) (.invalid "dspi.remainingValue; dspi.issuedAt is zero")
  require (b.rawData ≠ []) (.invalid "dspi.remainingValue; dspi.rawData has length zero")
  rewardDepositEquation b.deposit b.dataSize b.issuedAt (max (epochOf currentHeight) b.issuedAt)

def value (b : DSPreImage) : Except Fault ℕ := do
  require (b.deposit ≠ 0) (.invalid "dspi.value; dspi.deposit is zero")
  pure b.deposit

def epochOfExpiration (b : DSPreImage) : Except Fault ℕ := do
  require (b.deposit ≠ 0) (.invalid "dspi.epochOfExpiration; dspi.deposit is zero")
  require (b.rawData ≠ []) (.invalid "dspi.epochOfExpiration; dspi.rawData has length zero")
  let numEpochs ← numEpochsEquation b.dataSize b.deposit
  pure ((b.issuedAt + numEpochs + 1) % 2 ^ 32)

def isExpired (b : DSPreImage) (currentHeight : ℕ) : Except Fault Bool := do
  let eoe ← b.epochOfExpiration
  pure (decide (eoe ≤ epochOf currentHeight))

end DSPreImage

/-- A data store with its linker; decoding has checked it, with the output index it then had. -/
structure DataStore where
  dsPreImage : DSPreImage
  txHash : Bytes32
  signature : Bytes
  decoded : ∃ idx, ({ dsPreImage with txOutIdx := idx } : DSPreImage).validate = .ok ()
  valid : dsPreImage.validateDeposit = .ok ()

structure VSPreImage where
  chainID : ℕ
  value : ℕ
  txOutIdx : ℕ
  owner : Owner
  fee : ℕ
  deriving DecidableEq, Repr

/-- `utxoID` and `preHash` are remembered from earlier calls. -/
structure ValueStore where
  vsPreImage : VSPreImage
  txHash : Bytes32
  utxoID : Option Bytes32
  preHash : Option Bytes32
  deriving DecidableEq, Repr

inductive TXOut
  | dataStore (ds : DataStore)
  | valueStore (vs : ValueStore)

structure TXInPreImage where
  chainID : ℕ
  consumedTxIdx : ℕ
  consumedTxHash : Bytes32
  deriving DecidableEq, Repr

structure TXIn where
  txInPreImage : TXInPreImage
  txHash : Bytes32
  signature : Bytes
  deriving DecidableEq, Repr

structure Environment where
  hash : Bytes → Bytes32
  marshalDSPreImage : DSPreImage → Bytes
  marshalVSPreImage : VSPreImage → Bytes
  marshalTXInPreImage : TXInPreImage → Bytes
  objSize : TXOut → ℕ
  /-- The public key under which the signature of the message is valid. -/
  validate : CurveSpec → (msg sig : Bytes) → Except Fault Bytes
  getAccount : Bytes → Bytes20
  getDataStoreEpochFee : Except Fault ℕ
  getValueStoreFee : Except Fault ℕ
  getMinTxFee : Except Fault ℕ

variable (env : Environment)

def makeUTXOID (txHash : Bytes32) (idx : ℕ) : Bytes32 :=
  if idx = MaxUint32 then txHash else env.hash (txHash.toBytes ++ Bytes.bigEndian 4 idx)

namespace TXIn

def chainID (b : TXIn) : Except Fault ℕ := do
  require (b.txInPreImage.chainID ≠ 0) (.invalid "txinl.chainID; txinpi.chainID is zero")
  pure b.txInPreImage.chainID

def preHash (b : TXIn) : Except Fault Bytes32 := do
  require (b.txInPreImage.chainID ≠ 0) (.invalid "txinpi.marshalBinary; txinpi.chainID is zero")
  pure (env.hash (env.marshalTXInPreImage b.txInPreImage))

def utxoID (b : TXIn) : Except Fault Bytes32 := do
  require (b.txInPreImage.chainID ≠ 0) (.invalid "txinpi.utxoID; txinpi.chainID is zero")
  pure (makeUTXOID env b.txInPreImage.consumedTxHash b.txInPreImage.consumedTxIdx)

def isDeposit (b : TXIn) : Bool :=
  b.txInPreImage.chainID != 0 && b.txInPreImage.consumedTxIdx == MaxUint32

end TXIn

namespace ValueStore

def value (b : ValueStore) : Except Fault ℕ := do
  require (b.vsPreImage.value ≠ 0) (.invalid "vs.value: vspi.value is zero")
  pure b.vsPreImage.value

def isDeposit (b : ValueStore) : Bool :=
  b.vsPreImage.txOutIdx == MaxUint32

def validateFee (b : ValueStore) : Except Fault Unit :=
  if b.isDeposit then
    require (b.vsPreImage.fee = 0)
      (.invalid "vs.validateFee: invalid fee; deposits should have fee equal zero")
  else do
    let feeTrue ← env.getValueStoreFee
    require (b.vsPreImage.fee = feeTrue) (.invalid "vs.validateFee: invalid fee")

end ValueStore

namespace DataStore

def validateFee (b : DataStore) : Except Fault Unit := do
  let value ← b.dsPreImage.value
  let numEpochs ← numEpochsEquation b.dsPreImage.dataSize value
  let perEpochFee ← env.getDataStoreEpochFee
  let feeTrue ← Uint256.mul perEpochFee (numEpochs + 2)
  require (b.dsPreImage.fee = feeTrue) (.invalid "ds.validateFee: invalid fee")

def issuedAt (b : DataStore) : Except Fault ℕ := do
  require (b.dsPreImage.issuedAt ≠ 0) (.invalid "dsl.issuedAt: dspi.issuedAt is zero")
  pure b.dsPreImage.issuedAt

def setTxOutIdx (b : DataStore) (idx : ℕ) : DataStore :=
  { b with
    dsPreImage := { b.dsPreImage with txOutIdx := idx }
    decoded := b.decoded
    valid := b.valid }

end DataStore

namespace TXOut

def preHash : TXOut → Bytes32
  | dataStore ds => env.hash (env.marshalDSPreImage ds.dsPreImage)
  | valueStore vs => vs.preHash.getD (env.hash (env.marshalVSPreImage vs.vsPreImage))

def utxoID : TXOut → Bytes32
  | dataStore ds => makeUTXOID env ds.txHash ds.dsPreImage.txOutIdx
  | valueStore vs => vs.utxoID.getD (makeUTXOID env vs.txHash vs.vsPreImage.txOutIdx)

def chainID : TXOut → Except Fault ℕ
  | dataStore ds => do
    require (ds.dsPreImage.chainID ≠ 0) (.invalid "dsl.chainID: dspi.chainID is zero")
    pure ds.dsPreImage.chainID
  | valueStore vs => do
    require (vs.vsPreImage.chainID ≠ 0) (.invalid "vs.chainID: chainID is zero")
    pure vs.vsPreImage.chainID

def txOutIdx : TXOut → ℕ
  | dataStore ds => ds.dsPreImage.txOutIdx
  | valueStore vs => vs.vsPreImage.txOutIdx

def setTxOutIdx : TXOut → ℕ → TXOut
  | dataStore ds, idx => dataStore (ds.setTxOutIdx idx)
  | valueStore vs, idx =>
    valueStore { vs with vsPreImage := { vs.vsPreImage with txOutIdx := idx } }

def txHash : TXOut → Bytes32
  | dataStore ds => ds.txHash
  | valueStore vs => vs.txHash

def remainingValue : TXOut → (currentHeight : ℕ) → Except Fault ℕ
  | dataStore ds, currentHeight => ds.dsPreImage.remainingValue currentHeight
  | valueStore vs, _ => vs.value

def valuePlusFee : TXOut → Except Fault ℕ
  | dataStore ds => do
    let value ← ds.dsPreImage.value
    Uint256.add value ds.dsPreImage.fee
  | valueStore vs => do
    let value ← vs.value
    Uint256.add value vs.vsPreImage.fee

def validateFee : TXOut → Except Fault Unit
  | dataStore ds => ds.validateFee env
  | valueStore vs => vs.validateFee env

def mustBeMinedBeforeHeight : TXOut → Except Fault ℕ
  | dataStore ds => do
    let iat ← ds.issuedAt
    pure ((iat * EpochLength + MaxUint32) % 2 ^ 32)
  | valueStore _ => pure MaxUint32

def cannotBeMinedBeforeHeight : TXOut → Except Fault ℕ
  | dataStore ds => do
    let iat ← ds.issuedAt
    pure (((iat - 1) * EpochLength + 1) % 2 ^ 32)
  | valueStore _ => pure 1

/-- The object after `UTXOID` has been called. -/
def remember : TXOut → TXOut
  | dataStore ds => dataStore ds
  | valueStore vs => valueStore { vs with utxoID := some ((valueStore vs).utxoID env) }

/-- The object as it is read back from the database. -/
def stored : TXOut → TXOut
  | dataStore ds => dataStore ds
  | valueStore vs => valueStore { vs with utxoID := none, preHash := none }

end TXOut

end AliceNet.Application
