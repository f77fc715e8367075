import AliceNet.Library.Bytes
import AliceNet.Library.Word

/-!
The parser libraries of the contracts: fixed offsets into a Cap'n Proto blob.
-/

namespace AliceNet.Bridge.Parsers

open Outcome (require)

inductive Revert
  | OffsetParameterOverflow (offset : ℕ)
  | OffsetOutOfBounds (offset srcLength : ℕ)
  | LEUint16OffsetParameterOverflow (offset : ℕ)
  | LEUint16OffsetOutOfBounds (offset srcLength : ℕ)
  | LEUint256OffsetParameterOverflow (offset : ℕ)
  | LEUint256OffsetOutOfBounds (offset srcLength : ℕ)
  | Bytes32OffsetParameterOverflow (offset : ℕ)
  | Bytes32OffsetOutOfBounds (offset srcLength : ℕ)
  | SizeThresholdExceeded (dataSectionSize : ℕ)
  | DataOffsetOverflow (dataOffset : ℕ)
  | NotEnoughBytes (dataOffset srcLength : ℕ)
  | GenericDataOffsetOverflow
  | InsufficientBytes (bytesLength requiredBytesLength : ℕ)
  | ChainIdZero
  | HeightZero
  | panic (code : ℕ)
  deriving DecidableEq, Repr

def add256 : ℕ → ℕ → Except Revert ℕ := Word.add 256 (.panic 0x11)
def sub256 : ℕ → ℕ → Except Revert ℕ := Word.sub (.panic 0x11)

def extract (src : Bytes) (offset size : ℕ) (overflow : ℕ → Revert) (outOfBounds : ℕ → ℕ → Revert) :
    Except Revert Bytes := do
  let last ← add256 offset size
  require (offset < last) (overflow offset)
  require (last ≤ src.length) (outOfBounds last src.length)
  pure ((src.drop offset).take size)

def extractUInt32 (src : Bytes) (offset : ℕ) : Except Revert UInt32 := do
  let word ← extract src offset 4 .OffsetParameterOverflow .OffsetOutOfBounds
  pure (UInt32.ofNat (Bytes.value word.reverse))

def extractUInt16 (src : Bytes) (offset : ℕ) : Except Revert UInt16 := do
  let word ← extract src offset 2 .LEUint16OffsetParameterOverflow .LEUint16OffsetOutOfBounds
  pure (UInt16.ofNat (Bytes.value word.reverse))

/-- The word is loaded as it stands. -/
def extractUInt256 (src : Bytes) (offset : ℕ) : Except Revert ℕ := do
  let word ← extract src offset 32 .LEUint256OffsetParameterOverflow .LEUint256OffsetOutOfBounds
  pure (Bytes.value word)

def extractBytes32 (src : Bytes) (offset : ℕ) : Except Revert Bytes32 := do
  let word ← extract src offset 32 .Bytes32OffsetParameterOverflow .Bytes32OffsetOutOfBounds
  pure (Bytes32.ofBytes word)

structure BClaims where
  chainId : UInt32
  height : UInt32
  txCount : UInt32
  prevBlock : Bytes32
  txRoot : Bytes32
  stateRoot : Bytes32
  headerRoot : Bytes32
  deriving DecidableEq, Repr

def BCLAIMS_SIZE : ℕ := 176
def CAPNPROTO_HEADER_SIZE : ℕ := 8

def getPointerOffsetAdjustment (src : Bytes) (dataOffset : ℕ) : Except Revert ℕ := do
  let dataSectionSize ← extractUInt16 src dataOffset
  require (0 < dataSectionSize.toNat ∧ dataSectionSize.toNat ≤ 2)
    (.SizeThresholdExceeded dataSectionSize.toNat)
  pure (if dataSectionSize = 1 then 8 else 0)

/-- A `txCount` of zero is not part of the blob. -/
def extractTxCount (src : Bytes) (dataOffset pointerOffsetAdjustment : ℕ) : Except Revert UInt32 :=
  if pointerOffsetAdjustment = 0 then do extractUInt32 src (← add256 dataOffset 8) else pure 0

def extractPointer (src : Bytes) (dataOffset position pointerOffsetAdjustment : ℕ) :
    Except Revert Bytes32 := do
  extractBytes32 src (← sub256 (← add256 dataOffset position) pointerOffsetAdjustment)

def extractInnerBClaims (src : Bytes) (dataOffset pointerOffsetAdjustment : ℕ) :
    Except Revert BClaims := do
  let last ← sub256 (← add256 dataOffset BCLAIMS_SIZE) pointerOffsetAdjustment
  require (dataOffset < last) (.DataOffsetOverflow dataOffset)
  require (last ≤ src.length) (.NotEnoughBytes last src.length)
  let txCount ← extractTxCount src dataOffset pointerOffsetAdjustment
  let chainId ← extractUInt32 src dataOffset
  require (chainId ≠ 0) .ChainIdZero
  let height ← extractUInt32 src (← add256 dataOffset 4)
  require (height ≠ 0) .HeightZero
  let prevBlock ← extractPointer src dataOffset 48 pointerOffsetAdjustment
  let txRoot ← extractPointer src dataOffset 80 pointerOffsetAdjustment
  let stateRoot ← extractPointer src dataOffset 112 pointerOffsetAdjustment
  let headerRoot ← extractPointer src dataOffset 144 pointerOffsetAdjustment
  pure ⟨chainId, height, txCount, prevBlock, txRoot, stateRoot, headerRoot⟩

def extractBClaims (src : Bytes) : Except Revert BClaims := do
  extractInnerBClaims src CAPNPROTO_HEADER_SIZE (← getPointerOffsetAdjustment src 4)

structure SigGroup where
  publicKey : List ℕ
  signature : List ℕ
  deriving DecidableEq, Repr

def SIG_GROUP_SIZE : ℕ := 192

def extractSigGroup (src : Bytes) (dataOffset : ℕ) : Except Revert SigGroup := do
  let last ← add256 dataOffset SIG_GROUP_SIZE
  require (dataOffset < last) .GenericDataOffsetOverflow
  require (last ≤ src.length) (.InsufficientBytes src.length last)
  let publicKey ← [0, 32, 64, 96].mapM fun place => do
    extractUInt256 src (← add256 dataOffset place)
  let signature ← [128, 160].mapM fun place => do extractUInt256 src (← add256 dataOffset place)
  pure ⟨publicKey, signature⟩

open Outcome in
theorem extractBClaims_height (parsed : extractBClaims src = .ok claims) : claims.height ≠ 0 := by
  simp only [extractBClaims, extractInnerBClaims, ok_iff'] at parsed
  obtain ⟨_, _, _, _, _, _, _, _, _, _, _, _, _, _, _, _, _, nonzero, rest⟩ := parsed
  obtain ⟨_, _, _, _, _, _, _, _, rfl⟩ := rest
  exact nonzero

end AliceNet.Bridge.Parsers
