import AliceNet.Library.Outcome
import AliceNet.Library.Bytes

/-! The sparse Merkle trie: nodes are kept in batches of 31 slots, five levels of the trie each. -/

namespace AliceNet.BadgerTrie

/-- The byte kept after a word in a batch slot: 0, 1 or 2. -/
inductive Flag
  | interior
  | shortcut
  | data
  deriving DecidableEq, Repr

/-- A word with its flag. The root that the trie keeps has none. -/
structure Node where
  word : Bytes32
  flag : Option Flag
  deriving DecidableEq, Repr

/-- Slot 0 says whether the batch is a shortcut; the others hold nodes, or its key and value. -/
structure Batch where
  shortcut : Bool
  slots : ℕ → Option Node

structure KV where
  key : Bytes32
  value : Bytes32
  deriving DecidableEq, Repr

inductive Error
  | new (text : String)
  | unavailable (root : Bytes32)
  | panic
  deriving DecidableEq, Repr

/-- `hashed` records what was hashed; no function reads it. -/
structure CacheDB where
  updatedNodes : Bytes32 → Option Batch
  db : Bytes32 → Option Batch
  hashed : List Bytes

structure SMT where
  db : CacheDB
  root : Option Bytes32
  prevRoot : Option Bytes32

def TrieHeight : ℕ := 256

def Batch.default : Batch := ⟨false, fun _ => none⟩

def Batch.set (batch : Batch) (i : ℕ) (node : Option Node) : Batch :=
  { batch with slots := Function.update batch.slots i node }

def CacheDB.record (db : CacheDB) (input : Bytes) : CacheDB :=
  { db with hashed := input :: db.hashed }

def leafInput (key value : Bytes32) (height : ℕ) : Bytes :=
  key.toBytes ++ (value.toBytes ++ [UInt8.ofNat height])

def nodeInput (left right : Bytes32) : Bytes :=
  left.toBytes ++ right.toBytes

def bitIsSet (key : Bytes32) (i : ℕ) : Bool :=
  key.getMsbD i

section

variable (hash : Bytes → Bytes32)

def DefaultLeaf : Bytes32 := hash [0]

def loadBatch (db : CacheDB) (root : Bytes32) : Except Error Batch :=
  match db.updatedNodes root with
  | some batch => .ok batch
  | none =>
    match db.db root with
    | some batch => .ok batch
    | none => .error (.unavailable root)

structure Children where
  batch : Batch
  iBatch : ℕ
  lnode : Option Node
  rnode : Option Node
  isShortcut : Bool

def loadChildren (db : CacheDB) (root : Option Node) (height iBatch : ℕ) (batch : Batch) :
    Except Error Children :=
  if height % 4 = 0 then do
    let batch ← match root with
      | none => pure Batch.default
      | some node => loadBatch db node.word
    pure ⟨batch, 0, batch.slots 1, batch.slots 2, batch.shortcut⟩
  else
    let isShortcut := match batch.slots iBatch with
      | some node => node.flag == some .shortcut
      | none => false
    pure ⟨batch, iBatch, batch.slots (2 * iBatch + 1), batch.slots (2 * iBatch + 2), isShortcut⟩

def storeNode (db : CacheDB) (batch : Batch) (h : Node) (oldRoot : Option Node) : CacheDB :=
  if some h = oldRoot then db
  else { db with updatedNodes := Function.update db.updatedNodes h.word (some batch) }

def leafHash (db : CacheDB) (kv : KV) (oldRoot : Option Node) (batch : Batch) (iBatch height : ℕ) :
    Node × Batch × CacheDB :=
  let input := leafInput kv.key kv.value height
  let h : Node := ⟨hash input, some .shortcut⟩
  let db := db.record input
  let batch := (batch.set (2 * iBatch + 2) (some ⟨kv.value, some .data⟩)).set (2 * iBatch + 1)
    (some ⟨kv.key, some .data⟩)
  if height % 4 = 0 then
    let batch := { batch with shortcut := true }
    (h, batch, storeNode db batch h oldRoot)
  else (h, batch, db)

def interiorHash (db : CacheDB) (left right oldRoot : Option Node) (batch : Batch)
    (iBatch height : ℕ) : Except Error (Node × Batch × CacheDB) := do
  let input ← match left, right with
    | none, none => .error .panic
    | none, some right => pure (nodeInput (DefaultLeaf hash) right.word)
    | some left, none => pure (nodeInput left.word (DefaultLeaf hash))
    | some left, some right => pure (nodeInput left.word right.word)
  let h : Node := ⟨hash input, some .interior⟩
  let db := db.record input
  let batch := (batch.set (2 * iBatch + 2) right).set (2 * iBatch + 1) left
  if height % 4 = 0 then
    let batch := { batch with shortcut := false }
    pure (h, batch, storeNode db batch h oldRoot)
  else pure (h, batch, db)

def get (db : CacheDB) : (height : ℕ) → (root : Option Node) → (key : Bytes32) → Batch →
    (iBatch : ℕ) →
    Except Error (Option Bytes32)
  | _, none, _, _, _ => pure none
  | height, some root, key, batch, iBatch => do
    let children ← loadChildren db (some root) height iBatch batch
    if children.isShortcut then
      match children.lnode, children.rnode with
      | some lnode, some rnode => pure (if lnode.word = key then some rnode.word else none)
      | _, _ => .error .panic
    else
      match height with
      | 0 => .error .panic
      | below + 1 =>
        if bitIsSet key (TrieHeight - (below + 1)) then
          get db below children.rnode key children.batch (2 * children.iBatch + 2)
        else get db below children.lnode key children.batch (2 * children.iBatch + 1)

structure MResult where
  update : Option Node
  deleted : Bool
  batch : Batch
  db : CacheDB

def addShortcutLoop (kvs : List KV) (shortcut : KV) : (i : ℕ) → List KV → (newKVs : List KV) →
    (higher : Bool) → List KV
  | _, [], newKVs, _ => newKVs
  | i, kv :: rest, newKVs, higher =>
    if shortcut.key = kv.key ∧ DefaultLeaf hash ≠ kv.value then kvs
    else
      let newKVs := if shortcut.key = kv.key then newKVs ++ kvs.take i ++ kvs.drop (i + 1) else
        newKVs
      if higher = false ∧ shortcut.key > kv.key then
        addShortcutLoop kvs shortcut (i + 1) rest newKVs true
      else if higher = true ∧ shortcut.key < kv.key then newKVs ++ kvs.take i ++ [shortcut] ++
        kvs.drop i
      else addShortcutLoop kvs shortcut (i + 1) rest newKVs higher

def maybeAddShortcutToKV (kvs : List KV) (shortcut : KV) : List KV :=
  match kvs.head?, kvs.getLast? with
  | some first, some last =>
    if shortcut.key < first.key then shortcut :: kvs
    else if shortcut.key > last.key then kvs ++ [shortcut]
    else addShortcutLoop hash kvs shortcut 0 kvs [] false
  | _, _ => kvs

def splitKeys (kvs : List KV) (depth : ℕ) : List KV × List KV :=
  kvs.span fun kv => !bitIsSet kv.key depth

def moveUpShortcut (db : CacheDB) (shortcut : Node) (root : Option Node) (batch : Batch)
    (iBatch iShortcut height : ℕ) : Except Error MResult := do
  let children ← loadChildren db (some shortcut) (height - 1) iShortcut batch
  match children.lnode, children.rnode with
  | some key, some value =>
    let input := leafInput key.word value.word height
    let newShortcut : Node := ⟨hash input, some .shortcut⟩
    let db := db.record input
    if iBatch = 0 then
      let batch := { batch with shortcut := true }
      let batch := (batch.set (2 * iBatch + 1) (some key)).set (2 * iBatch + 2) (some value)
      let batch := (batch.set (2 * iShortcut + 1) none).set (2 * iShortcut + 2) none
      pure ⟨some newShortcut, true, batch, storeNode db batch newShortcut root⟩
    else if (height - 1) % 4 = 0 then
      let batch := (batch.set (2 * iBatch + 1) (some key)).set (2 * iBatch + 2) (some value)
      pure ⟨some newShortcut, true, batch, db⟩
    else
      let batch := (batch.set (2 * iBatch + 1) (some key)).set (2 * iBatch + 2) (some value)
      let batch := (batch.set (2 * iShortcut + 1) none).set (2 * iShortcut + 2) none
      pure ⟨some newShortcut, true, batch, db⟩
  | _, _ => .error .panic

/-- `none` when there is nothing to move up. -/
def maybeMoveUpShortcut (db : CacheDB) (left right root : Option Node) (batch : Batch)
    (iBatch height : ℕ) : Except Error (Option MResult) :=
  match left, right with
  | none, none =>
    let batch := if iBatch = 0 then batch else
      (batch.set (2 * iBatch + 1) none).set (2 * iBatch + 2) none
    pure (some ⟨none, true, batch, db⟩)
  | none, some right =>
    if right.flag = some .shortcut then
      some <$> moveUpShortcut hash db right root batch iBatch (2 * iBatch + 2) height
    else pure none
  | some left, none =>
    if left.flag = some .shortcut then
      some <$> moveUpShortcut hash db left root batch iBatch (2 * iBatch + 1) height
    else pure none
  | some _, some _ => pure none

/-- The end of `updateRight`, `updateLeft` and `updateParallel`. -/
def closeNode (db : CacheDB) (left right root : Option Node) (deleted : Bool) (batch : Batch)
    (iBatch height : ℕ) : Except Error MResult := do
  let moved ← if deleted then maybeMoveUpShortcut hash db left right root batch iBatch height else
    pure none
  match moved with
  | some result => pure result
  | none =>
    let (node, batch, db) ← interiorHash hash db left right root batch iBatch height
    pure ⟨some node, false, batch, db⟩

/-- The type of `update` at one height. -/
abbrev Updater := CacheDB → Option Node → List KV → Batch → ℕ → Except Error MResult

def updateChildren (below : Updater) (db : CacheDB) (root : Option Node) (kvs : List KV)
    (batch : Batch) (iBatch : ℕ) (lnode rnode : Option Node) (height : ℕ) : Except Error MResult :=
  match lnode, rnode, kvs with
  | none, none, [kv] =>
    if DefaultLeaf hash = kv.value then pure ⟨none, true, batch, db⟩
    else
      let (node, batch, db) := leafHash hash db kv root batch iBatch height
      pure ⟨some node, false, batch, db⟩
  | lnode, rnode, kvs =>
    match splitKeys kvs (TrieHeight - height) with
    | ([], rkvs) => do
      let result ← below db rnode rkvs batch (2 * iBatch + 2)
      closeNode hash result.db lnode result.update root result.deleted result.batch iBatch height
    | (lkvs, []) => do
      let result ← below db lnode lkvs batch (2 * iBatch + 1)
      closeNode hash result.db result.update rnode root result.deleted result.batch iBatch height
    | (lkvs, rkvs) => do
      let lresult ← below db lnode lkvs batch (2 * iBatch + 1)
      let rresult ← below lresult.db rnode rkvs lresult.batch (2 * iBatch + 2)
      closeNode hash rresult.db lresult.update rresult.update root
        (lresult.deleted || rresult.deleted) rresult.batch iBatch height

def updateStep (below : Updater) (height : ℕ) : Updater := fun db root kvs batch iBatch => do
  let children ← loadChildren db root height iBatch batch
  let keep (result : MResult) : MResult :=
    if height % 4 = 0 then { result with batch := batch } else result
  if children.isShortcut then
    match children.lnode, children.rnode with
    | some key, some value =>
      let kvs := maybeAddShortcutToKV hash kvs ⟨key.word, value.word⟩
      let cleared :=
        (children.batch.set (2 * children.iBatch + 1) none).set (2 * children.iBatch + 2) none
      if kvs = [] then pure (keep ⟨none, true, cleared, db⟩)
      else keep <$> updateChildren hash below db root kvs cleared children.iBatch none none height
    | _, _ => .error .panic
  else
    keep <$> updateChildren hash below db root kvs children.batch children.iBatch children.lnode
      children.rnode height

def update : (height : ℕ) → Updater
  | 0 => fun db root kvs batch _ =>
    match kvs with
    | [] => .error (.new "length of keys or values should not be zero")
    | kv :: _ =>
      if DefaultLeaf hash = kv.value then pure ⟨none, true, batch, db⟩
      else
        let (node, _, db) := leafHash hash db kv root Batch.default 0 0
        pure ⟨some node, false, batch, db⟩
  | height + 1 => fun db root kvs batch iBatch =>
    match kvs with
    | [] => .error (.new "length of keys or values should not be zero")
    | kv :: rest => updateStep hash (update height) (height + 1) db root (kv :: rest) batch iBatch

end

namespace SMT

variable (hash : Bytes → Bytes32)

def new : SMT :=
  ⟨⟨fun _ => none, fun _ => none, [[0]]⟩, none, none⟩

def rootNode (s : SMT) : Option Node :=
  s.root.map fun word => ⟨word, none⟩

def Get (s : SMT) (key : Bytes32) : Except Error (Option Bytes32) :=
  get s.db TrieHeight s.rootNode key Batch.default 0

def checkKV (s : SMT) (kv : KV) : Except Error Unit := do
  let v ← s.Get kv.key
  if kv.value = DefaultLeaf hash then
    match v with
    | none => .error (.new "missing")
    | some _ => pure ()
  else
    match v with
    | some v => if v = kv.value then pure () else .error (.new "conflicting key/value in trie")
    | none => pure ()

def Update (s : SMT) (kvs : List KV) : Except Error SMT := do
  Outcome.require (kvs.map KV.key).Nodup (.new "duplicate input key")
  kvs.forM (checkKV hash s)
  let result ← update hash TrieHeight s.db s.rootNode kvs Batch.default 0
  pure { s with db := result.db, root := result.update.map Node.word }

end SMT

def SMT.Commit (s : SMT) : SMT :=
  { s with
    db := { s.db with
      updatedNodes := fun _ => none
      db := fun word => (s.db.updatedNodes word).orElse fun _ => s.db.db word }
    prevRoot := s.root }

end AliceNet.BadgerTrie
