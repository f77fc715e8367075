import AliceNet.Layer1.WatcherRuns

/-! How long a receipt stays in the cache of the watcher. -/

namespace AliceNet.Layer1.Watcher.WatcherBackend

open Function List Option

def loadState (saved : WatcherBackend) (order : List Hash) : WatcherBackend :=
  order.foldl (fun wb groupHash => match wb.retryGroups groupHash with
    | none => wb
    | some group => { wb with
      retryGroups :=
        update wb.retryGroups groupHash (some { group with receiptResponse := wb.receipts.length })
      receipts := wb.receipts ++ [none] })
    { saved with
      lastProcessedBlock := empty.lastProcessedBlock
      receiptCache := fun hash => (saved.receiptCache hash).map fun info =>
        { info with retrievedAtHeight := 0 }
      receipts := [] }

abbrev Clock := Hash → Option ℕ

/-- What is new in the cache counts from now. -/
def Clock.stamp (clock : Clock) (before after : WatcherBackend) (height : ℕ) : Clock :=
  fun hash => if after.receiptCache hash = before.receiptCache hash then clock hash else some height

abbrev Clock.Due (clock : Clock) (height : ℕ) (hash : Hash) : Prop :=
  (clock hash).getD height + TxReceiptCacheMaxBlocks ≤ height

/-- Requests, the steps of polls at increasing heights, and restarts from what was persisted. -/
inductive Life (client : Client) : (wb saved : WatcherBackend) → (height : ℕ) → Clock → Prop
  | start : Life client empty empty 0 fun _ => none
  | queue (life : Life client wb saved height clock) (req : SubscribeRequest) :
      Life client (wb.queue client req).1 saved height clock
  | respond (life : Life client wb saved height clock) (responses : List MonitorWorkResponse)
      (increasing : height ≤ height') :
      Life client (wb.respond client height' responses).1 saved height'
        (clock.stamp wb (wb.respond client height' responses).1 height')
  | dispatch (life : Life client wb saved height clock) (finishedTxs : Hash → Option Outcome)
      (order : List Hash) :
      Life client (wb.dispatchFinishedTxs finishedTxs order) saved height clock
  | clean (life : Life client wb saved height clock) (lastProcessedBlock : Block) :
      Life client { wb.cleanReceiptCache height with lastProcessedBlock } saved height
        fun hash => some ((clock hash).getD height)
  | persist (life : Life client wb saved height clock) : Life client wb wb height clock
  | restart (life : Life client wb saved height clock) (order : List Hash) :
      Life client (saved.loadState order) saved height fun _ => none

variable {client : Client} {wb wb' saved : WatcherBackend} {hash : Hash} {info : CachedReceipt}
  {clock : Clock}

theorem Life.collectReceipts (life : Life client wb saved height clock) (poll : Poll)
    (increasing : ∀ blockInfo, poll.header = some blockInfo → height ≤ blockInfo.height) :
    ∃ height' clock', Life client (wb.collectReceipts client poll) saved height' clock' := by
  unfold WatcherBackend.collectReceipts
  split
  · exact ⟨_, _, life⟩
  split
  · exact ⟨_, _, life⟩
  rename_i blockInfo header
  split
  · exact ⟨_, _, life⟩
  have answered := life.respond poll.responses (increasing blockInfo header)
  dsimp only
  split
  · exact ⟨_, _, (answered.dispatch _ poll.order).clean blockInfo⟩
  · exact ⟨_, _, answered⟩

def Timed (wb : WatcherBackend) (height : ℕ) (clock : Clock) : Prop :=
  ∀ hash info, wb.receiptCache hash = some info → info.retrievedAtHeight ≠ 0 →
    clock hash = some info.retrievedAtHeight ∧ info.retrievedAtHeight ≤ height

private theorem queue_receiptCache (wb : WatcherBackend) (req : SubscribeRequest) :
    (wb.queue client req).1.receiptCache = wb.receiptCache := by
  unfold queue
  repeat' split
  all_goals rfl

private theorem handleWorkerResponse_receiptCache
    (found : (handleWorkerResponse client wb outcome monitoredTxn height).1.receiptCache hash =
      some info) : wb.receiptCache hash = some info ∨ info.retrievedAtHeight = height := by
  cases outcome with
  | err failure => cases failure <;> exact Or.inl found
  | retried retry => cases retry <;> exact Or.inl found
  | receipt rcpt =>
    cases rcpt with
    | none => exact Or.inl found
    | some receipt =>
      simp only [handleWorkerResponse] at found
      by_cases same : hash = monitoredTxn.retryGroup
      · subst same
        rw [update_self, some.injEq] at found
        exact Or.inr (found ▸ rfl)
      · rw [update_of_ne same] at found
        exact Or.inl found

theorem respond_receiptCache
    (found : (wb.respond client height responses).1.receiptCache hash = some info) :
    wb.receiptCache hash = some info ∨ info.retrievedAtHeight = height := by
  revert found
  refine foldlRecOn responses _ (motive := fun state : Collection => state.1.receiptCache hash =
    some info → wb.receiptCache hash = some info ∨ info.retrievedAtHeight = height) Or.inl ?_
  intro state earlier response _ found
  unfold collect at found
  split at found
  · exact earlier found
  · exact (handleWorkerResponse_receiptCache found).elim earlier Or.inr

private theorem dispatchFinishedTxs_receiptCache (wb : WatcherBackend)
    (finishedTxs : Hash → Option Outcome) (order : List Hash) :
    (wb.dispatchFinishedTxs finishedTxs order).receiptCache = wb.receiptCache := by
  refine foldlRecOn order _ (motive := fun state : WatcherBackend =>
    state.receiptCache = wb.receiptCache) rfl ?_
  intro state same txnHash _
  rw [← same]
  unfold dispatchOne removeFromGroup sendReceipt recordGas
  repeat' split
  all_goals rfl

private theorem loadState_receiptCache
    (found : (saved.loadState order).receiptCache hash = some info) :
    info.retrievedAtHeight = 0 := by
  revert found
  refine foldlRecOn order _ (motive := fun wb : WatcherBackend => wb.receiptCache hash = some info →
    info.retrievedAtHeight = 0) ?_ ?_
  · intro found
    obtain ⟨_, _, rfl⟩ := map_eq_some_iff.mp found
    rfl
  · intro wb unrecorded groupHash _
    split
    · exact unrecorded
    · exact unrecorded

private theorem of_cleanReceiptCache
    (found : (wb.cleanReceiptCache height).receiptCache hash = some info) :
    wb.receiptCache hash = some info := by
  obtain ⟨other, known, kept⟩ := bind_eq_some_iff.mp found
  rw [known]
  exact (ite_none_left_eq_some.mp kept).2

theorem Life.timed (life : Life client wb saved height clock) : Timed wb height clock := by
  induction life with
  | start => exact nofun
  | @queue wb _ _ _ _ req ih =>
    rw [Timed, queue_receiptCache wb req]
    exact ih
  | respond _ responses increasing ih =>
    intro hash info found recorded
    unfold Clock.stamp
    rcases respond_receiptCache found with known | now
    · obtain ⟨counts, early⟩ := ih hash info known recorded
      rw [if_pos (found.trans known.symm)]
      exact ⟨counts, early.trans increasing⟩
    · refine ⟨?_, now.le⟩
      split
      · rename_i same
        exact (ih hash info (same.symm.trans found) recorded).1
      · rw [now]
  | @dispatch wb _ _ _ _ finishedTxs order ih =>
    rw [Timed, dispatchFinishedTxs_receiptCache wb finishedTxs order]
    exact ih
  | clean _ _ ih =>
    intro hash info found recorded
    obtain ⟨counts, early⟩ := ih hash info (of_cleanReceiptCache found) recorded
    exact ⟨by simp only [counts, getD_some], early⟩
  | persist _ ih => exact ih
  | restart _ order _ =>
    exact fun hash info found recorded => absurd (loadState_receiptCache found) recorded

private theorem cleanReceiptCache_eq_none_iff (found : wb.receiptCache hash = some info)
    (early : info.retrievedAtHeight ≤ height) (uint64 : height < 2 ^ 64) :
    (wb.cleanReceiptCache height).receiptCache hash = none ↔
      if info.retrievedAtHeight = 0 then 2 ^ 64 ≤ height + TxReceiptCacheMaxBlocks
      else 2 ^ 64 ≤ info.retrievedAtHeight + TxReceiptCacheMaxBlocks ∨
        info.retrievedAtHeight + TxReceiptCacheMaxBlocks ≤ height := by
  simp only [cleanReceiptCache, found, bind_some, ite_eq_left_iff, reduceCtorEq, imp_false, not_not]
  unfold TxReceiptCacheMaxBlocks
  by_cases zero : info.retrievedAtHeight = 0
  · rw [if_pos (Or.inl zero), if_pos zero]
    omega
  · have recorded : ¬ (info.retrievedAtHeight = 0 ∨ height < info.retrievedAtHeight) := by omega
    rw [if_neg recorded, if_neg zero]
    omega

/-- In every life of the watcher a call of `cleanReceiptCache` removes exactly the entries that are
due, if and only if no entry is due that has no height with it, because it was reloaded or is from
height zero. Next to the end of `uint64` the sum wraps around, and what has to stay is removed. -/
theorem Life.expiry_iff (life : Life client wb saved height clock) (uint64 : height < 2 ^ 64) :
    (∀ hash info, wb.receiptCache hash = some info →
      ((wb.cleanReceiptCache height).receiptCache hash = none ↔ clock.Due height hash)) ↔
    ∀ hash info, wb.receiptCache hash = some info →
      if info.retrievedAtHeight = 0 then clock.Due height hash ↔
        2 ^ 64 ≤ height + TxReceiptCacheMaxBlocks
      else info.retrievedAtHeight + TxReceiptCacheMaxBlocks < 2 ^ 64 := by
  refine forall_congr' fun hash => forall_congr' fun info => forall_congr' fun found => ?_
  by_cases zero : info.retrievedAtHeight = 0
  · rw [cleanReceiptCache_eq_none_iff found (by omega) uint64, if_pos zero, if_pos zero]
    exact iff_comm
  · obtain ⟨counts, early⟩ := life.timed hash info found zero
    rw [cleanReceiptCache_eq_none_iff found early uint64, Clock.Due, counts, getD_some, if_neg zero,
      if_neg zero]
    omega

def sampleReceipt : MonitorWorkResponse := ⟨1, .receipt (some ⟨1, 21000, 1⟩)⟩

def sampleCached : WatcherBackend := (sampleWatcher.respond sampleClient 1 [sampleReceipt]).1

theorem sampleCached_life : Life sampleClient sampleCached empty 1
    (Clock.stamp (fun _ => none) sampleWatcher sampleCached 1) :=
  (Life.start.queue ⟨some ⟨1, []⟩, none⟩).respond [sampleReceipt] (Nat.zero_le 1)

/-- After a hundred blocks the entry is due, and is removed. -/
theorem Life.expiry_iff_cached : ∃ wb clock, Life sampleClient wb empty 101 clock ∧
    (wb.receiptCache 1).isSome ∧ clock.Due 101 1 ∧ (wb.cleanReceiptCache 101).receiptCache 1 =
      none := by
  have life := sampleCached_life.respond [] (show 1 ≤ 101 by decide)
  have due : (Clock.stamp (Clock.stamp (fun _ => none) sampleWatcher sampleCached 1) sampleCached
      (sampleCached.respond sampleClient 101 []).1 101).Due 101 1 := by decide
  refine ⟨_, _, life, rfl, due, ((Life.expiry_iff life (by decide)).mpr ?_ 1 _ rfl).mpr due⟩
  intro hash info found
  rw [(respond_receiptCache (show sampleCached.receiptCache hash =
    some info from found)).resolve_left nofun, if_neg one_ne_zero]
  decide

/-- The entry that is cached at height one and reloaded counts from height two, where the first call
is, and is still in the cache after the call at height 200: the height is set in a copy of the entry
only. -/
theorem reloaded_receipt_stays : ∃ wb clock, Life sampleClient wb sampleCached 200 clock ∧
    clock 1 = some 2 ∧ clock.Due 200 1 ∧ ((wb.cleanReceiptCache 200).receiptCache 1).isSome := by
  have reloaded :=
    (((sampleCached_life.persist.restart [1]).respond [] (show 1 ≤ 2 by decide)).clean ⟨2, 2⟩)
  exact ⟨_, _, reloaded.respond [] (show 2 ≤ 200 by decide), by decide, by decide, by decide⟩

end AliceNet.Layer1.Watcher.WatcherBackend
