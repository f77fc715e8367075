import AliceNet.BadgerTrie.Smt

/-! Fast sync: the batches of a trie are asked for one by one and checked against their hashes. -/

namespace AliceNet.BadgerTrie

open Outcome (require)

abbrev RawBatch := ℕ → Bytes

def isSet (bits : Bytes) (i : ℕ) : Bool :=
  (bits.getD (i / 8) 0).toNat.testBit (7 - i % 8)

/-- How many of the first `i` bits are set. -/
def rank (bitmap : Bytes) (i : ℕ) : ℕ :=
  ((List.range i).filter fun k => isSet bitmap k).length

def slice (val : Bytes) (start length : ℕ) : Bytes :=
  (val.drop start).take length

def parseBatch (val : Bytes) : Except Error RawBatch := do
  require (val.length ≠ 0) (.new "length of input value should be higher than zero")
  require (4 ≤ val.length) (.new "length of input value should be at least 4 to contain the bitmap")
  if isSet val 31 then
    require (70 ≤ val.length) (.new "length of input value should be seventy-one for a shortcut")
    pure fun i => if i = 0 then [1] else if i = 1 ∨ i = 2 then slice val (4 + 33 * (i - 1)) 33 else
      []
  else
    require (4 + 33 * rank val 30 ≤ val.length)
      (.new "length of input value is lower than it should be")
    pure fun i =>
      if i = 0 then [0]
      else if i ≤ 30 ∧ isSet val (i - 1) then slice val (4 + 33 * rank val (i - 1)) 33
      else []

def bitmapOf (used : ℕ → Bool) : Bytes :=
  (List.range 4).map fun byte =>
    UInt8.ofNat (((List.range 8).map fun k => if used (8 * byte + k) then 2 ^ (7 - k) else 0).sum)

def serializeBatch (batch : RawBatch) : Bytes :=
  bitmapOf (fun i => if i = 31 then batch 0 == [1] else decide (i < 30) && batch (i + 1) != []) ++
    ((List.range 30).map fun i => batch (i + 1)).flatten

def Flag.byte : Flag → UInt8
  | .interior => 0
  | .shortcut => 1
  | .data => 2

def Node.bytes (node : Node) : Bytes :=
  node.word.toBytes ++ (node.flag.map Flag.byte).toList

def Batch.raw (batch : Batch) : RawBatch := fun i =>
  if i = 0 then [if batch.shortcut then 1 else 0]
  else if i ≤ 30 then ((batch.slots i).map Node.bytes).getD []
  else []

def SMT.GetNodeDB (s : SMT) (root : Bytes32) : Option Bytes :=
  (s.db.db root).map fun batch => serializeBatch batch.raw

section

variable (hash : Bytes → Bytes32)

/-- `byte(height)` for a height that may be out of range. -/
def heightByte (height : ℤ) : UInt8 := UInt8.ofNat (height % 256).toNat

def wordAt (batch : RawBatch) (i : ℕ) : Except Error Bytes := do
  require (32 ≤ (batch i).length) .panic
  pure ((batch i).take 32)

def flagAt (batch : RawBatch) (i : ℕ) : Except Error UInt8 :=
  match (batch i)[32]? with
  | some flag => pure flag
  | none => throw .panic

def lastAt (batch : RawBatch) (i : ℕ) : Except Error UInt8 :=
  match (batch i).getLast? with
  | some flag => pure flag
  | none => throw .panic

def hasChildren (batch : RawBatch) (i : ℕ) : Bool :=
  decide (2 * i + 1 < 32 ∧ 2 * i + 2 < 32) && (batch (2 * i + 1) != [] || batch (2 * i + 2) != [])

def hashWords (batch : RawBatch) (lidx ridx : ℕ) (tail : Bytes) : Except Error Bytes32 := do
  pure (hash ((← wordAt batch lidx) ++ (← wordAt batch ridx) ++ tail))

/-- The hash of a node none of whose children has children in the batch. -/
def leafNodeHash (batch : RawBatch) (idx : ℕ) (flag : UInt8) (height : ℤ) :
    Except Error (Option Bytes32) :=
  let lidx := 2 * idx + 1
  let ridx := 2 * idx + 2
  if flag = 1 ∧ idx < 15 then some <$> hashWords hash batch lidx ridx [heightByte height]
  else if batch ridx ≠ [] ∧ batch lidx ≠ [] then some <$> hashWords hash batch lidx ridx []
  else if batch ridx ≠
    [] then do pure (some (hash ((DefaultLeaf hash).toBytes ++ (← wordAt batch ridx))))
  else if batch lidx ≠
    [] then do pure (some (hash ((← wordAt batch lidx) ++ (DefaultLeaf hash).toBytes)))
  else pure none

/-- Hashing the way back up. -/
def innerHash (lres rres : Option Bytes32) : Bytes32 :=
  hash ((lres.getD (DefaultLeaf hash)).toBytes ++ (rres.getD (DefaultLeaf hash)).toBytes)

def visit {β : Type} (batch : RawBatch) (absent : β) (below : ℕ → Except Error β) (child : ℕ) :
    Except Error β :=
  if hasChildren batch child then below child else pure absent

def nodeHash (batch : RawBatch) (idx : ℕ) (lres rres : Option Bytes32) (height : ℤ) :
    Except Error (Option Bytes32) :=
  if lres = none ∧ rres = none then do leafNodeHash hash batch idx (← flagAt batch idx) height
  else pure (some (innerHash hash lres rres))

def heldWord (batch : RawBatch) (idx : ℕ) (root : Bytes32) : Except Error Bytes :=
  if idx = 0 then pure root.toBytes else wordAt batch idx

def verifyNode (batch : RawBatch) (height : ℤ) (root : Bytes32) :
    (subtreeHeight idx : ℕ) → Except Error (Option Bytes32 × Bool)
  | 0, _ => pure (none, false)
  | below + 1, idx => do
    let (lres, leq) ← visit batch (none, true) (verifyNode batch height root below) (2 * idx + 1)
    if !leq then return (none, false)
    let (rres, req) ← visit batch (none, true) (verifyNode batch height root below) (2 * idx + 2)
    if !req then return (none, false)
    let res ← nodeHash hash batch idx lres rres (height + (below + 1 : ℕ))
    let held ← heldWord batch idx root
    pure (res, res.map Bytes32.toBytes == some held)

def verifyBatch (batch : RawBatch) (subtreeHeight : ℕ) (height : ℤ) (root : Bytes32) :
    Except Error (Option Bytes32 × Bool) :=
  if batch 0 ≠ [0] then
    if ∃ i < 31, 3 ≤ i ∧ batch i ≠ [] then pure (some (hash []), false)
    else do
      let res ← hashWords hash batch 1 2 [heightByte (height + subtreeHeight - 1)]
      pure (some res, res == root)
  else verifyNode hash batch height root subtreeHeight 0

def verifyBatchEasy (batch : RawBatch) (root : Bytes32) (layer : ℤ) :
    Except Error (Option Bytes32 × Bool) :=
  if batch 0 ≠ [0] then verifyBatch hash batch 1 (256 - 4 * layer) root
  else verifyBatch hash batch 4 (256 - 4 * (layer + 1)) root

/-- The words of the two children of a slot, as far as there are any. -/
def childWords (batch : RawBatch) (idx : ℕ) : Except Error (List Bytes) :=
  ([2 * idx + 1, 2 * idx + 2].filter fun i => batch i != []).mapM (wordAt batch)

/-- The end of `getInteriorNodesNext`. -/
def interiorNodes (batch : RawBatch) (idx : ℕ) (lres rres : Option Bytes32) (height : ℤ) :
    Except Error (List Bytes × Option Bytes32) :=
  if lres = none ∧ rres = none then do
    let flag ← lastAt batch idx
    let res ← leafNodeHash hash batch idx flag height
    if flag = 1 ∧ idx < 15 then pure ([], res) else pure (← childWords batch idx, res)
  else pure ([], some (innerHash hash lres rres))

def getInteriorNodesNext (batch : RawBatch) (height : ℤ) :
    (subtreeHeight idx : ℕ) → Except Error (List Bytes × Option Bytes32)
  | 0, _ => pure ([], none)
  | below + 1, idx => do
    let (left, lres) ← visit batch ([], none) (getInteriorNodesNext batch height below)
      (2 * idx + 1)
    let (right, rres) ← visit batch ([], none) (getInteriorNodesNext batch height below)
      (2 * idx + 2)
    let (here, res) ← interiorNodes hash batch idx lres rres (height + (below + 1 : ℕ))
    pure (left ++ right ++ here, res)

def getInteriorNodesEasy (batch : RawBatch) (layer : ℤ) : Except Error (List Bytes) :=
  if batch 0 ≠ [0] then pure []
  else Prod.fst <$> getInteriorNodesNext hash batch (256 - 4 * (layer + 1)) 4 0

structure LeafNode where
  key : Bytes
  value : Bytes
  deriving DecidableEq, Repr

def getFinalLeafNodes (batch : RawBatch) : (levels idx : ℕ) → Except Error (List LeafNode)
  | 0, _ => pure []
  | levels + 1, idx => do
    if (← lastAt batch idx) = 1 ∧ idx < 15 then
      pure [⟨← wordAt batch (2 * idx + 1), ← wordAt batch (2 * idx + 2)⟩]
    else
      let left ← visit batch [] (getFinalLeafNodes batch levels) (2 * idx + 1)
      let right ← visit batch [] (getFinalLeafNodes batch levels) (2 * idx + 2)
      pure (left ++ right)

/-- The node keys of the database that are filled by the sync. -/
abbrev NodeDB := Bytes32 → Option Bytes

structure Synced where
  db : NodeDB
  subBatch : List Bytes
  layer : ℤ
  leaves : List LeafNode

/-- The common part of `storeFastSyncRoot` and `storeFastSyncNonRoot`. -/
def storeFastSync (db : NodeDB) (batch : RawBatch) (root : Bytes32) (layer : ℤ) (text : String) :
    Except Error Synced := do
  let (_, ok) ← verifyBatchEasy hash batch root layer
  require (ok = true) (.new text)
  let db := Function.update db root (some (serializeBatch batch))
  let subBatch ← getInteriorNodesEasy hash batch layer
  let leaves ← getFinalLeafNodes batch 4 0
  pure ⟨db, subBatch, layer + 1, leaves⟩

def StoreSnapShotNode (db : NodeDB) (batch : Bytes) (root : Bytes32) (layer : ℤ) :
    Except Error Synced := do
  let pbatch ← parseBatch batch
  if layer = 0 then
    storeFastSync hash db pbatch root 0
      "Error in smt.StoreFastSyncRoot at s.verifyBatchEasy(batch, root, 0)"
  else
    require (0 < layer)
      (.new "Error in smt.StoreFastSyncNonRoot at s.storeFastSyncNonRoot: invalid layer")
    storeFastSync hash db pbatch root layer
      "Error in smt.StoreFastSyncNonRoot at s.verifyBatchEasy(batch, root, layer)"

end

end AliceNet.BadgerTrie
