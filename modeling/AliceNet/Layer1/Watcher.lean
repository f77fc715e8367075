import AliceNet.Library.Bytes

/-! The watcher of layer 1 transactions. Where the code ranges over a map, the keys in the order of
the visit are an argument. A `SharedReceipt` is its place in a list of all that were ever made. -/

namespace AliceNet.Layer1.Watcher

open Function

abbrev Hash := Bytes32
abbrev Address := BitVec 160
abbrev FuncSelector := Bytes

def TxReceiptCacheMaxBlocks : ℕ := 100
def TxWorkerMaxWorkRetries : ℕ := 3
def TxBackOffDelayStaleTxMultiplier : ℕ := 2

structure Transaction where
  hash : Hash
  data : Bytes
  deriving Repr, DecidableEq

structure Receipt where
  blockNumber : ℕ
  gasUsed : ℕ
  status : ℕ
  deriving Repr, DecidableEq

/-- What can go wrong when a worker looks for a receipt. -/
inductive WorkError
  | recoverable
  | txNotFound
  | transactionStale
  deriving Repr, DecidableEq

structure Monitored where
  txn : Transaction
  fromAddress : Address
  selector : FuncSelector
  retryGroup : Hash
  enableAutoRetry : Bool
  maxStaleBlocks : ℕ
  monitoringHeight : ℕ
  retryAmount : ℕ
  notFoundBlocks : ℕ
  deriving Repr, DecidableEq

def newMonitored (txn : Transaction) (fromAddr : Address) (selector : FuncSelector)
    (retryGroup : Hash) (enableAutoRetry : Bool) (maxStaleBlocks : ℕ) : Monitored :=
  ⟨txn, fromAddr, selector, retryGroup, enableAutoRetry, maxStaleBlocks, 0, 0, 0⟩

def newReplacedMonitored (newTxn : Transaction) (original : Monitored) : Monitored :=
  newMonitored newTxn original.fromAddress original.selector original.retryGroup
    original.enableAutoRetry original.maxStaleBlocks

/-- What has been written, if anything. -/
abbrev SharedReceipt := Option (Option Receipt × Option WorkError)

def SharedReceipt.isReady (r : SharedReceipt) : Bool := r.isSome

def SharedReceipt.writeReceipt (r : SharedReceipt) (receipt : Option Receipt)
    (err : Option WorkError) : SharedReceipt :=
  if receipt = none ∧ err = none then r
  else if r.isReady then r
  else some (receipt, err)

structure Group where
  internalGroup : List Hash
  receiptResponse : ℕ
  deriving Repr, DecidableEq

namespace Group

def add (g : Group) (txHash : Hash) : Group :=
  { g with internalGroup := g.internalGroup ++ [txHash] }

/-- The place of the last entry with the hash. -/
def lastIndexOf (hashes : List Hash) (txHash : Hash) : Option ℕ :=
  (hashes.reverse.idxOf? txHash).map fun i => hashes.length - 1 - i

def remove (g : Group) (txHash : Hash) : Option (Group × Group) :=
  match lastIndexOf g.internalGroup txHash with
  | none => none
  | some index =>
    let entries := g.internalGroup.set index (g.internalGroup.getLastD txHash)
    some ({ g with internalGroup := entries }, { g with internalGroup := entries.dropLast })

def isEmpty (g : Group) : Bool := g.internalGroup.isEmpty

end Group

structure Profile where
  averageGas : ℕ
  minimumGas : ℕ
  maximumGas : ℕ
  totalGas : ℕ
  totalCount : ℕ
  totalSuccess : ℕ
  deriving Repr, DecidableEq

/-- Sums of 64 bits. -/
def Profile.record (profile : Profile) (rcpt : Receipt) : Profile where
  averageGas := (profile.averageGas * profile.totalCount + rcpt.gasUsed) % 2 ^ 64 /
    ((profile.totalCount + 1) % 2 ^ 64)
  minimumGas := if profile.minimumGas = 0 ∨ rcpt.gasUsed < profile.minimumGas then rcpt.gasUsed else
    profile.minimumGas
  maximumGas := if profile.maximumGas < rcpt.gasUsed then rcpt.gasUsed else profile.maximumGas
  totalGas := (profile.totalGas + rcpt.gasUsed) % 2 ^ 64
  totalCount := (profile.totalCount + 1) % 2 ^ 64
  totalSuccess := if rcpt.status = 1 then (profile.totalSuccess + 1) % 2 ^ 64 else
    profile.totalSuccess

structure Client where
  extractTransactionSender : Transaction → Option Address
  getTxMaxStaleBlocks : ℕ
  getTxNotFoundMaxBlocks : ℕ
  getFinalityDelay : ℕ
  getDefaultAccount : Address

inductive Query (α : Type)
  | answer (value : α)
  | notFound
  | failure

inductive Outcome
  | err (err : WorkError)
  | retried (txn : Option Transaction)
  | receipt (receipt : Option Receipt)
  deriving Repr, DecidableEq

def Outcome.toReceipt : Outcome → Option Receipt
  | .receipt rcpt => rcpt
  | _ => none

def Outcome.toError : Outcome → Option WorkError
  | .err failure => some failure
  | _ => none

structure MonitorWorkResponse where
  txnHash : Hash
  outcome : Outcome
  deriving Repr, DecidableEq

namespace WorkerPool

variable (client : Client)

def getReceipt (monitoredTx : Monitored) (currentHeight : ℕ) (isPending : Query Bool)
    (rcpt : Query Receipt) : Except WorkError (Option Receipt) :=
  let blockTimeSpan := (currentHeight + 2 ^ 64 - monitoredTx.monitoringHeight) % 2 ^ 64
  match isPending with
  | .notFound => .error .txNotFound
  | .failure => .error .recoverable
  | .answer true =>
    let maxPendingBlocks := monitoredTx.maxStaleBlocks * (monitoredTx.retryAmount + 1) *
      if 0 < monitoredTx.retryAmount then TxBackOffDelayStaleTxMultiplier else 1
    if maxPendingBlocks % 2 ^ 64 ≤ blockTimeSpan then .error .transactionStale else .ok none
  | .answer false => match rcpt with
    | .notFound => .error .txNotFound
    | .failure => .error .recoverable
    | .answer rcpt => if rcpt.blockNumber + client.getFinalityDelay ≤ currentHeight then
        .ok (some rcpt) else .ok none

/-- The report, or `none` if the worker tries again. -/
def handleResponse (monitoredTxn : Monitored) (txnHash : Hash)
    (result : Except WorkError (Option Receipt)) (retry : Option Transaction) (iteration : ℕ) :
    Option MonitorWorkResponse :=
  match result with
  | .ok rcpt => some ⟨txnHash, .receipt rcpt⟩
  | .error .recoverable => if iteration < TxWorkerMaxWorkRetries then none else
      some ⟨txnHash, .err .recoverable⟩
  | .error .transactionStale =>
    if monitoredTxn.enableAutoRetry ∧ monitoredTxn.fromAddress = client.getDefaultAccount then
      some ⟨txnHash, .retried retry⟩
    else some ⟨txnHash, .err .transactionStale⟩
  | .error err => some ⟨txnHash, .err err⟩

structure Attempt where
  isPending : Query Bool
  rcpt : Query Receipt
  retry : Option Transaction

def worker (monitoredTx : Monitored) (currentHeight iteration : ℕ) : List Attempt →
    Option MonitorWorkResponse
  | [] => none
  | attempt :: rest =>
    if TxWorkerMaxWorkRetries < iteration then none
    else
      let result := getReceipt client monitoredTx currentHeight attempt.isPending attempt.rcpt
      match handleResponse client monitoredTx monitoredTx.txn.hash result attempt.retry
        iteration with
      | some response => some response
      | none => worker monitoredTx currentHeight (iteration + 1) rest

def executeWork (height : ℕ) (requests : List (Monitored × List Attempt)) :
    List MonitorWorkResponse :=
  requests.filterMap fun request => worker client request.1 height 1 request.2

variable {client}

private theorem handleResponse_txnHash
    (answered : handleResponse client monitoredTxn txnHash result retry iteration = some response) :
    response.txnHash = txnHash := by
  unfold handleResponse at answered
  repeat' split at answered
  all_goals grind

private theorem worker_txnHash
    (answered : worker client monitoredTx height iteration attempts = some response) :
    response.txnHash = monitoredTx.txn.hash := by
  induction attempts generalizing iteration with
  | nil => cases answered
  | cons attempt rest ih =>
    unfold worker at answered
    split at answered
    · cases answered
    dsimp only at answered
    split at answered
    · rename_i first
      exact handleResponse_txnHash (first.trans answered)
    · exact ih answered

theorem worker_once (client : Client) (height : ℕ) (requests : List (Monitored × List Attempt)) :
    ((executeWork client height requests).map MonitorWorkResponse.txnHash).Sublist
      (requests.map fun request => request.1.txn.hash) := by
  induction requests with
  | nil => exact .slnil
  | cons request rest ih =>
    simp only [executeWork, List.filterMap_cons] at ih ⊢
    split
    · exact ih.cons _
    · rename_i answered
      rw [List.map_cons, worker_txnHash answered]
      exact ih.cons_cons _

end WorkerPool

structure Block where
  height : ℕ
  hash : Hash
  deriving Repr, DecidableEq

structure CachedReceipt where
  receipt : Receipt
  retrievedAtHeight : ℕ
  deriving Repr, DecidableEq

structure WatcherBackend where
  lastProcessedBlock : Block
  monitoredTxns : Hash → Option Monitored
  receiptCache : Hash → Option CachedReceipt
  aggregates : FuncSelector → Option Profile
  retryGroups : Hash → Option Group
  receipts : List SharedReceipt

structure SubscribeOptions where
  enableAutoRetry : Bool
  maxStaleBlocks : ℕ
  deriving Repr, DecidableEq

structure SubscribeRequest where
  txn : Option Transaction
  subscribeOptions : Option SubscribeOptions
  deriving Repr, DecidableEq

def extractSelector (data : Bytes) : FuncSelector :=
  if 4 ≤ data.length then data.take 4 else [0, 0, 0, 0]

namespace WatcherBackend

def empty : WatcherBackend := ⟨⟨0, 0⟩, fun _ => none, fun _ => none, fun _ => none, fun _ =>
    none, []⟩

variable (client : Client)

def monitor (wb : WatcherBackend) (txn : Transaction) (fromAddr : Address)
    (options : Option SubscribeOptions) : WatcherBackend :=
  let enableAutoRetry := (options.map SubscribeOptions.enableAutoRetry).getD true
  let maxStaleBlocks :=
    (options.map SubscribeOptions.maxStaleBlocks).getD client.getTxMaxStaleBlocks
  let newMonitoredTxn :=
    newMonitored txn fromAddr (extractSelector txn.data) txn.hash enableAutoRetry maxStaleBlocks
  { wb with
    monitoredTxns := update wb.monitoredTxns txn.hash (some newMonitoredTxn)
    retryGroups := update wb.retryGroups txn.hash (some ⟨[txn.hash], wb.receipts.length⟩)
    receipts := wb.receipts ++ [none] }

def queue (wb : WatcherBackend) (req : SubscribeRequest) : WatcherBackend × Option ℕ :=
  match req.txn with
  | none => (wb, none)
  | some txn => match client.extractTransactionSender txn with
    | none => (wb, none)
    | some fromAddr => match wb.receiptCache txn.hash with
      | some cached => ({ wb with receipts := wb.receipts ++ [some (some cached.receipt, none)] },
          some wb.receipts.length)
      | none => match wb.monitoredTxns txn.hash with
        | some monitoredTxn =>
          (wb, (wb.retryGroups monitoredTxn.retryGroup).map Group.receiptResponse)
        | none => match wb.retryGroups txn.hash with
          | some txGroup => (wb, some txGroup.receiptResponse)
          | none => (wb.monitor client txn fromAddr req.subscribeOptions, some wb.receipts.length)

def handleWorkerResponse (wb : WatcherBackend) (outcome : Outcome) (monitoredTxn : Monitored)
    (height : ℕ) : WatcherBackend × Monitored × Bool :=
  match outcome with
  | .err .recoverable => (wb, monitoredTxn, false)
  | .err .txNotFound =>
    let monitoredTxn := { monitoredTxn with notFoundBlocks := monitoredTxn.notFoundBlocks + 1 }
    (wb, monitoredTxn, decide (client.getTxNotFoundMaxBlocks ≤ monitoredTxn.notFoundBlocks))
  | .err .transactionStale => (wb, monitoredTxn, true)
  | .retried none => (wb, { monitoredTxn with monitoringHeight := 0 }, false)
  | .retried (some txn) =>
    let monitoredTxn := { monitoredTxn with monitoringHeight := 0 }
    let txGroup := ((wb.retryGroups monitoredTxn.retryGroup).getD ⟨[], 0⟩).add txn.hash
    ({ wb with
        monitoredTxns :=
          update wb.monitoredTxns txn.hash (some (newReplacedMonitored txn monitoredTxn))
        retryGroups := update wb.retryGroups monitoredTxn.retryGroup (some txGroup) },
      { monitoredTxn with retryAmount := monitoredTxn.retryAmount + 1 }, false)
  | .receipt none => (wb, monitoredTxn, false)
  | .receipt (some receipt) =>
    ({ wb with
      receiptCache := update wb.receiptCache monitoredTxn.retryGroup (some ⟨receipt, height⟩) },
      monitoredTxn, true)

def collect (height : ℕ) (state : WatcherBackend × (Hash → Option Outcome))
    (response : MonitorWorkResponse) : WatcherBackend × (Hash → Option Outcome) :=
  match state.1.monitoredTxns response.txnHash with
  | none => state
  | some monitoredTxn =>
    let (wb, newMonitoredTxn, isFinished) :=
      handleWorkerResponse client state.1 response.outcome monitoredTxn height
    ({ wb with monitoredTxns := update wb.monitoredTxns response.txnHash (some newMonitoredTxn) },
      if isFinished then update state.2 response.txnHash (some response.outcome) else state.2)

def sendReceipt (wb : WatcherBackend) (txGroup : Group) (outcome : Outcome) : WatcherBackend :=
  if txGroup.isEmpty then wb
  else if txGroup.internalGroup.length = 1 ∨ outcome.toReceipt ≠ none then
    { wb with receipts := wb.receipts.modify txGroup.receiptResponse fun r =>
        SharedReceipt.writeReceipt r outcome.toReceipt outcome.toError }
  else wb

def removeFromGroup (wb : WatcherBackend) (retryGroup : Hash) (txGroup : Group) (txnHash : Hash) :
    WatcherBackend :=
  match txGroup.remove txnHash with
  | none => wb
  | some (shown, shortened) =>
    { wb with retryGroups :=
        update wb.retryGroups retryGroup (if shortened.isEmpty then none else some shown) }

def recordGas (wb : WatcherBackend) (monitoredTxn : Monitored) (outcome : Outcome) :
    WatcherBackend :=
  match outcome.toReceipt with
  | none => wb
  | some rcpt =>
    let profile := (wb.aggregates monitoredTxn.selector).getD ⟨0, 0, 0, 0, 0, 0⟩
    { wb with
      aggregates := update wb.aggregates monitoredTxn.selector (some (profile.record rcpt)) }

def dispatchOne (wb : WatcherBackend) (txnHash : Hash) (outcome : Outcome) : WatcherBackend :=
  match wb.monitoredTxns txnHash with
  | none => wb
  | some monitoredTxn =>
    let wb := match wb.retryGroups monitoredTxn.retryGroup with
      | none => wb
      | some txGroup =>
        ((wb.recordGas monitoredTxn outcome).sendReceipt txGroup outcome).removeFromGroup
          monitoredTxn.retryGroup txGroup txnHash
    { wb with monitoredTxns := update wb.monitoredTxns txnHash none }

def dispatchFinishedTxs (wb : WatcherBackend) (finishedTxs : Hash → Option Outcome)
    (order : List Hash) : WatcherBackend :=
  order.foldl (fun wb txnHash => match finishedTxs txnHash with
    | none => wb
    | some outcome => wb.dispatchOne txnHash outcome) wb

/-- The height at which a receipt was found is not written back. -/
def cleanReceiptCache (wb : WatcherBackend) (height : ℕ) : WatcherBackend :=
  { wb with receiptCache := fun hash => (wb.receiptCache hash).bind fun info =>
      let retrievedAtHeight :=
        if info.retrievedAtHeight = 0 ∨ height < info.retrievedAtHeight then height else
          info.retrievedAtHeight
      if (retrievedAtHeight + TxReceiptCacheMaxBlocks) % 2 ^ 64 ≤ height then none else some info }

def startMonitoring (height : ℕ) (monitoredTxn : Monitored) : Monitored :=
  if monitoredTxn.monitoringHeight = 0 ∨ height < monitoredTxn.monitoringHeight then
    { monitoredTxn with monitoringHeight := height }
  else monitoredTxn

/-- What the workers report, one after the other. -/
def respond (wb : WatcherBackend) (height : ℕ) (responses : List MonitorWorkResponse) :
    WatcherBackend × (Hash → Option Outcome) :=
  responses.foldl (collect client height)
    ({ wb with monitoredTxns := fun hash => (wb.monitoredTxns hash).map (startMonitoring height) },
      fun _ => none)

/-- What a poll meets: answers, responses as they arrive, and the order in which maps are read. -/
structure Poll where
  header : Option Block
  feesKnown : Bool
  monitored : List Hash
  responses : List MonitorWorkResponse
  alive : Bool
  order : List Hash

def collectReceipts (wb : WatcherBackend) (poll : Poll) : WatcherBackend :=
  if poll.monitored = [] then wb
  else match poll.header with
    | none => wb
    | some blockInfo =>
      if wb.lastProcessedBlock = blockInfo ∨ poll.feesKnown = false then wb
      else
        let (wb, finishedTxs) := wb.respond client blockInfo.height poll.responses
        if poll.alive then
          { (wb.dispatchFinishedTxs finishedTxs poll.order).cleanReceiptCache blockInfo.height with
            lastProcessedBlock := blockInfo }
        else wb

end WatcherBackend

end AliceNet.Layer1.Watcher
