import AliceNet.Layer1.Watcher
import AliceNet.Library.Grouping

/-! Runs of the watcher: the records of groups agree, and every subscriber is answered. -/

namespace AliceNet.Layer1.Watcher

open Grouping Function List

/-- The response ends the monitoring of the transaction. -/
def Outcome.finishes (client : Client) (monitoredTxn : Monitored) : Outcome → Bool
  | .err .recoverable => false
  | .err .txNotFound => decide (client.getTxNotFoundMaxBlocks ≤ monitoredTxn.notFoundBlocks + 1)
  | .err .transactionStale => true
  | .retried _ => false
  | .receipt rcpt => rcpt.isSome

def Outcome.replacement : Outcome → Option Hash
  | .retried (some txn) => some txn.hash
  | _ => none

theorem Outcome.finishes_startMonitoring (client : Client) (height : ℕ) (monitoredTxn : Monitored)
    (outcome : Outcome) :
    outcome.finishes client (WatcherBackend.startMonitoring height monitoredTxn) =
      outcome.finishes client monitoredTxn := by
  have same : (WatcherBackend.startMonitoring height monitoredTxn).notFoundBlocks =
      monitoredTxn.notFoundBlocks := by
    unfold WatcherBackend.startMonitoring
    split <;> rfl
  unfold finishes
  rw [same]

/-- There is something to tell the subscribers. -/
def Outcome.Speaks (outcome : Outcome) : Prop :=
    ¬ (outcome.toReceipt = none ∧ outcome.toError = none)

theorem Outcome.speaks {outcome : Outcome}
    (finished : outcome.finishes client monitoredTxn = true) : outcome.Speaks := by
  rintro ⟨noReceipt, noError⟩
  cases outcome with
  | err failure => cases noError
  | retried txn => cases finished
  | receipt rcpt =>
    simp only [toReceipt] at noReceipt
    rw [noReceipt] at finished
    cases finished

theorem Outcome.replacement_of_finishes {outcome : Outcome}
    (finished : outcome.finishes client monitoredTxn = true) : outcome.replacement = none := by
  cases outcome with
  | err failure => rfl
  | retried txn => cases finished
  | receipt rcpt => rfl

theorem SharedReceipt.writeReceipt_ready (r : SharedReceipt) {err : Option WorkError}
    (speaks : ¬ (receipt = none ∧ err = none)) :
    ∃ content, r.writeReceipt receipt err = some content := by
  rw [SharedReceipt.writeReceipt, if_neg speaks]
  split
  · rename_i ready
    exact Option.isSome_iff_exists.mp ready
  · exact ⟨_, rfl⟩

theorem SharedReceipt.writeReceipt_some (content : Option Receipt × Option WorkError)
    {err : Option WorkError} :
    SharedReceipt.writeReceipt (some content) receipt err = some content := by
  rw [SharedReceipt.writeReceipt]
  split
  · rfl
  · rfl

theorem Group.remove_single (hash : Hash) (id : ℕ) :
    Group.remove ⟨[hash], id⟩ hash = some (⟨[hash], id⟩, ⟨[], id⟩) := by
  simp [Group.remove, Group.lastIndexOf, idxOf?]

namespace WatcherBackend

variable {client : Client} {wb wb' : WatcherBackend} {hash g : Hash}

def groupOf (wb : WatcherBackend) : Hash → Option Hash :=
    Option.map Monitored.retryGroup ∘ wb.monitoredTxns

def members (wb : WatcherBackend) : Hash → Option (List Hash) :=
    Option.map Group.internalGroup ∘ wb.retryGroups

/-- The receipt for which the subscribers of a group wait. -/
def awaited (wb : WatcherBackend) : Hash → Option ℕ :=
    Option.map Group.receiptResponse ∘ wb.retryGroups

def Ready (wb : WatcherBackend) (id : ℕ) : Prop := ∃ content, wb.receipts[id]? = some (some content)

abbrev Subscriber := Hash × ℕ

/-- The records agree, and a subscriber has its receipt or waits for that of a group. -/
structure Consistent (wb : WatcherBackend) (subscribers : List Subscriber) : Prop where
  grouped : Exact wb.groupOf wb.members
  made : ∀ g id, wb.awaited g = some id → id < wb.receipts.length
  answered : ∀ s ∈ subscribers, wb.Ready s.2 ∨ wb.awaited s.1 = some s.2

theorem groupOf_eq_none_iff : wb.groupOf hash = none ↔ wb.monitoredTxns hash = none :=
  Option.map_eq_none_iff

theorem groupOf_eq_some_iff :
    wb.groupOf hash = some g ↔ ∃ monitoredTxn, wb.monitoredTxns hash = some monitoredTxn ∧
      monitoredTxn.retryGroup = g :=
  Option.map_eq_some_iff

section

variable {subscribers : List Subscriber} (consistent : wb.Consistent subscribers)

include consistent

theorem Consistent.congr (groupOf : wb'.groupOf = wb.groupOf)
    (retryGroups : wb'.retryGroups = wb.retryGroups) (receipts : wb'.receipts = wb.receipts) :
    wb'.Consistent subscribers where
  grouped := by
    rw [groupOf, members, retryGroups]
    exact consistent.grouped
  made := by
    rw [awaited, retryGroups, receipts]
    exact consistent.made
  answered := by
    intro s mem
    rw [Ready, awaited, retryGroups, receipts]
    exact consistent.answered s mem

theorem Consistent.listed (g : Hash) :
    (wb.awaited g).isSome ↔ ∃ hash, wb.groupOf hash = some g := by
  rw [← consistent.grouped.listed g, awaited, members, comp_apply, comp_apply, Option.isSome_map,
    Option.isSome_map]

theorem Consistent.vacated (left : ∀ hash, wb.groupOf hash ≠ some g) :
    wb.retryGroups g = none ∧ ∀ s ∈ subscribers, s.1 = g → wb.Ready s.2 := by
  have unlisted : ¬ (wb.awaited g).isSome := by
    rw [consistent.listed]
    rintro ⟨hash, found⟩
    exact left hash found
  refine ⟨?_, fun s mem same => ?_⟩
  · simpa [awaited] using unlisted
  · subst same
    exact (consistent.answered s mem).resolve_right fun waits => unlisted (by rw [waits]; rfl)

end

variable {subscribers : List Subscriber}

theorem Consistent.nil : empty.Consistent [] where
  grouped := Exact.nil
  made := by simp [awaited, empty]
  answered := by simp

theorem Ready.append {id : ℕ} (ready : wb.Ready id)
    (receipts : wb'.receipts = wb.receipts ++ more) : wb'.Ready id := by
  obtain ⟨content, found⟩ := ready
  refine ⟨content, ?_⟩
  rw [receipts, getElem?_append_left (List.getElem?_eq_some_iff.mp found).1, found]

theorem Consistent.monitor (consistent : wb.Consistent subscribers)
    (unknown : wb.monitoredTxns txn.hash = none) (vacant : wb.retryGroups txn.hash = none) :
    (wb.monitor client txn fromAddr options).Consistent ((txn.hash, wb.receipts.length) ::
      subscribers) where
  grouped := by
    have joined := consistent.grouped.join (groupOf_eq_none_iff.mpr unknown) (b := txn.hash)
      (show (wb.members txn.hash).getD [] = [] by simp [members, vacant])
    simpa only [groupOf, members, WatcherBackend.monitor, comp_update, newMonitored,
      Option.map_some, nil_append] using joined
  made := by
    intro g id waits
    simp only [awaited, WatcherBackend.monitor, comp_update, Option.map_some] at waits
    rw [show (wb.monitor client txn fromAddr options).receipts = wb.receipts ++ [none] from rfl,
      length_append, length_singleton]
    by_cases same : g = txn.hash
    · subst same
      rw [update_self, Option.some.injEq] at waits
      omega
    · rw [update_of_ne same] at waits
      exact Nat.lt_succ_of_lt (consistent.made g id waits)
  answered := by
    intro s mem
    simp only [awaited, WatcherBackend.monitor, comp_update, Option.map_some]
    rcases mem_cons.mp mem with rfl | earlier
    · exact .inr (update_self ..)
    · rcases consistent.answered s earlier with ready | waits
      · exact .inl (ready.append rfl)
      · refine .inr ?_
        rw [update_of_ne]
        · exact waits
        · intro same
          rw [same, awaited, comp_apply, vacant] at waits
          cases waits

theorem Consistent.subscribe (consistent : wb.Consistent subscribers)
    (given : wb.Ready s.2 ∨ wb.awaited s.1 = some s.2) : wb.Consistent (s :: subscribers) :=
  ⟨consistent.grouped, consistent.made, forall_mem_cons.mpr ⟨given, consistent.answered⟩⟩

def subscribed (wb : WatcherBackend) (txn : Transaction) : Hash :=
    (wb.groupOf txn.hash).getD txn.hash

theorem Consistent.queue (consistent : wb.Consistent subscribers)
    (options : Option SubscribeOptions)
    (sender : client.extractTransactionSender txn = some fromAddr) :
    ∃ id, (wb.queue client ⟨some txn, options⟩).2 = some id ∧
      (wb.queue client ⟨some txn, options⟩).1.Consistent ((wb.subscribed txn, id) ::
        subscribers) := by
  simp only [WatcherBackend.queue, sender]
  cases cache : wb.receiptCache txn.hash with
  | some cached =>
    refine ⟨wb.receipts.length, rfl, consistent.grouped, ?_, ?_⟩
    · intro g id waits
      rw [length_append]
      exact Nat.lt_add_right _ (consistent.made g id waits)
    · intro s mem
      rcases mem_cons.mp mem with rfl | earlier
      · exact .inl ⟨(some cached.receipt, none), by simp⟩
      · exact (consistent.answered s earlier).imp_left fun ready => ready.append rfl
  | none =>
    cases known : wb.monitoredTxns txn.hash with
    | some monitoredTxn =>
      have grouped : wb.groupOf txn.hash = some monitoredTxn.retryGroup :=
        groupOf_eq_some_iff.mpr ⟨_, known, rfl⟩
      obtain ⟨id, waits⟩ := Option.isSome_iff_exists.mp ((consistent.listed _).mpr ⟨_, grouped⟩)
      refine ⟨id, waits, consistent.subscribe (.inr ?_)⟩
      rw [subscribed, grouped]
      exact waits
    | none =>
      have own : wb.subscribed txn = txn.hash := by rw [subscribed, groupOf_eq_none_iff.mpr known,
        Option.getD_none]
      rw [own]
      cases group : wb.retryGroups txn.hash with
      | some txGroup =>
        refine ⟨txGroup.receiptResponse, rfl, consistent.subscribe (.inr ?_)⟩
        rw [awaited, comp_apply, group, Option.map_some]
      | none => exact ⟨wb.receipts.length, rfl, consistent.monitor known group⟩

/-- The state of a poll, with the transactions that are finished. -/
abbrev Collection := WatcherBackend × (Hash → Option Outcome)

variable {state : Collection} {response : MonitorWorkResponse}
  {responses : List MonitorWorkResponse}

structure Collected (client : Client) (state : Collection) (response : MonitorWorkResponse)
    (monitoredTxn : Monitored) (state' : Collection) : Prop where
  receipts : state'.1.receipts = state.1.receipts
  finishedTxs : state'.2 = if response.outcome.finishes client monitoredTxn then
    update state.2 response.txnHash (some response.outcome) else state.2
  others : ∀ other, other ≠ response.txnHash → response.outcome.replacement ≠ some other →
    state'.1.monitoredTxns other = state.1.monitoredTxns other
  kept : response.outcome.replacement = none →
    state'.1.retryGroups = state.1.retryGroups ∧ state'.1.groupOf = state.1.groupOf
  added : ∀ new, response.outcome.replacement = some new →
    state'.1.retryGroups = update state.1.retryGroups monitoredTxn.retryGroup
      (some (((state.1.retryGroups monitoredTxn.retryGroup).getD ⟨[], 0⟩).add new)) ∧
    (state.1.monitoredTxns new = none →
      state'.1.groupOf = update state.1.groupOf new (some monitoredTxn.retryGroup))

theorem collect_views (client : Client)
    (known : state.1.monitoredTxns response.txnHash = some monitoredTxn) (height : ℕ) :
    Collected client state response monitoredTxn (collect client height state response) := by
  have regroup : ∀ updated : Monitored, updated.retryGroup = monitoredTxn.retryGroup →
      Option.map Monitored.retryGroup ∘ update state.1.monitoredTxns response.txnHash
        (some updated) = state.1.groupOf := by
    intro updated same
    rw [comp_update, Option.map_some, same]
    refine update_eq_self_iff.mpr ?_
    rw [comp_apply, known, Option.map_some]
  have frame : ∀ (updated : Option Monitored) (other : Hash), other ≠ response.txnHash →
      response.outcome.replacement ≠ some other →
      update state.1.monitoredTxns response.txnHash updated other =
          state.1.monitoredTxns other := by
    intro updated other apart _
    exact update_of_ne apart ..
  unfold collect
  simp only [known]
  rcases response with ⟨txnHash, outcome⟩
  cases outcome with
  | err failure =>
    cases failure <;>
      exact ⟨rfl, by simp [handleWorkerResponse, Outcome.finishes], frame _, fun _ =>
        ⟨rfl, regroup _ rfl⟩, nofun⟩
  | receipt rcpt =>
    cases rcpt <;>
      exact ⟨rfl, by simp [handleWorkerResponse, Outcome.finishes], frame _, fun _ =>
        ⟨rfl, regroup _ rfl⟩, nofun⟩
  | retried retry =>
    cases retry with
    | none => exact ⟨rfl, by simp [handleWorkerResponse, Outcome.finishes], frame _, fun _ =>
        ⟨rfl, regroup _ rfl⟩, nofun⟩
    | some txn =>
      refine ⟨rfl, by simp [handleWorkerResponse, Outcome.finishes], ?_, nofun, ?_⟩
      · intro other apart unnamed
        simp only [handleWorkerResponse]
        rw [update_of_ne apart, update_of_ne fun same => unnamed (congrArg some same.symm)]
      · rintro _ ⟨⟩
        refine ⟨rfl, fun fresh => ?_⟩
        have apart : txnHash ≠ txn.hash := by
          rintro rfl
          rw [fresh] at known
          cases known
        have swapped :=
          update_comm apart (some monitoredTxn.retryGroup) (some monitoredTxn.retryGroup)
          (Option.map Monitored.retryGroup ∘ state.1.monitoredTxns)
        simp only [groupOf, handleWorkerResponse, comp_update, Option.map_some,
          newReplacedMonitored, newMonitored]
        rw [← swapped]
        refine congrArg (fun table => update table txn.hash _) ?_
        refine update_eq_self_iff.mpr ?_
        rw [comp_apply, known, Option.map_some]

/-- What holds before the rest of the responses. -/
structure Collecting (client : Client) (subscribers : List Subscriber)
    (rest : List MonitorWorkResponse) (state : Collection) : Prop where
  consistent : state.1.Consistent subscribers
  requested : ∀ response ∈ rest, ∃ monitoredTxn, state.1.monitoredTxns response.txnHash =
    some monitoredTxn ∧ (response.outcome.finishes client monitoredTxn = true →
      Alone state.1.groupOf response.txnHash monitoredTxn.retryGroup)
  fresh : ∀ response ∈ rest, ∀ new, response.outcome.replacement = some new →
    state.1.monitoredTxns new = none
  once : (rest.map MonitorWorkResponse.txnHash).Nodup
  distinct : (rest.filterMap fun response => response.outcome.replacement).Nodup
  finished : ∀ hash outcome, state.2 hash = some outcome →
    hash ∉ rest.map MonitorWorkResponse.txnHash ∧ outcome.Speaks ∧ ∃ g, Alone state.1.groupOf hash g

theorem Consistent.add (consistent : wb.Consistent subscribers)
    (present : wb.retryGroups g = some txGroup) (fresh : wb.monitoredTxns new = none)
    (groupOf : wb'.groupOf = update wb.groupOf new (some g))
    (retryGroups : wb'.retryGroups = update wb.retryGroups g (some (txGroup.add new)))
    (receipts : wb'.receipts = wb.receipts) : wb'.Consistent subscribers := by
  have awaited : wb'.awaited = wb.awaited := by
    rw [WatcherBackend.awaited, retryGroups, comp_update, Option.map_some]
    refine update_eq_self_iff.mpr ?_
    rw [comp_apply, present, Option.map_some]
    rfl
  constructor
  · have joined := consistent.grouped.join (groupOf_eq_none_iff.mpr fresh) (b := g)
      (show (wb.members g).getD [] = txGroup.internalGroup by simp [members, present])
    rw [groupOf, members, retryGroups, comp_update]
    exact joined
  · rw [awaited, receipts]
    exact consistent.made
  · intro s mem
    rw [Ready, awaited, receipts]
    exact consistent.answered s mem

theorem Collecting.collect_keeps {rest : List MonitorWorkResponse}
    (collecting : Collecting client subscribers (response :: rest) state)
    (known : state.1.monitoredTxns response.txnHash = some monitoredTxn) (height : ℕ) :
    (collect client height state response).1.Consistent subscribers ∧
    ∀ hash g, hash ≠ response.txnHash → Alone state.1.groupOf hash g →
      Alone (collect client height state response).1.groupOf hash g := by
  have views := collect_views client known height
  have known_group : state.1.groupOf response.txnHash = some monitoredTxn.retryGroup :=
    groupOf_eq_some_iff.mpr ⟨monitoredTxn, known, rfl⟩
  cases replaced : response.outcome.replacement with
  | none =>
    obtain ⟨retryGroups, groupOf⟩ := views.kept replaced
    refine ⟨collecting.consistent.congr groupOf retryGroups views.receipts, ?_⟩
    intro hash g _ alone
    rw [groupOf]
    exact alone
  | some new =>
    obtain ⟨retryGroups, groupOf⟩ := views.added new replaced
    have fresh := collecting.fresh response mem_cons_self new replaced
    have present := (collecting.consistent.listed _).mpr ⟨_, known_group⟩
    simp only [awaited, comp_apply, Option.isSome_map] at present
    obtain ⟨txGroup, present⟩ := Option.isSome_iff_exists.mp present
    rw [present, Option.getD_some] at retryGroups
    refine ⟨collecting.consistent.add present fresh (groupOf fresh) retryGroups views.receipts, ?_⟩
    intro hash g apart alone
    rw [groupOf fresh]
    refine alone.join (groupOf_eq_none_iff.mpr fresh) ?_
    rintro rfl
    exact apart (alone.2 _ known_group).symm

theorem Collecting.step {rest : List MonitorWorkResponse}
    (collecting : Collecting client subscribers (response :: rest) state) (height : ℕ) :
    Collecting client subscribers rest (collect client height state response) := by
  obtain ⟨monitoredTxn, known, lone⟩ := collecting.requested response mem_cons_self
  have views := collect_views client known height
  obtain ⟨consistent, alone_kept⟩ := collecting.collect_keeps known height
  obtain ⟨later, once⟩ := nodup_cons.mp collecting.once
  have apart : ∀ response' ∈ rest, response'.txnHash ≠ response.txnHash := by
    intro response' mem same
    exact later (same ▸ mem_map_of_mem mem)
  constructor
  · exact consistent
  · intro response' mem
    obtain ⟨monitoredTxn', known', lone'⟩ := collecting.requested response' (mem_cons_of_mem _ mem)
    refine ⟨monitoredTxn', ?_, fun finishes =>
      alone_kept _ _ (apart response' mem) (lone' finishes)⟩
    rw [views.others _ (apart response' mem), known']
    intro replaced
    rw [collecting.fresh response mem_cons_self _ replaced] at known'
    cases known'
  · intro response' mem new replaced'
    have unknown := collecting.fresh response' (mem_cons_of_mem _ mem) new replaced'
    rw [views.others new, unknown]
    · rintro rfl
      rw [known] at unknown
      cases unknown
    · intro replaced
      have distinct := collecting.distinct
      simp only [filterMap_cons, replaced, nodup_cons] at distinct
      exact distinct.1 (mem_filterMap.mpr ⟨response', mem, replaced'⟩)
  · exact once
  · have distinct := collecting.distinct
    cases replaced : response.outcome.replacement with
    | none => simpa only [filterMap_cons, replaced] using distinct
    | some new =>
      simp only [filterMap_cons, replaced, nodup_cons] at distinct
      exact distinct.2
  · intro hash outcome finished
    have earlier : state.2 hash = some outcome → hash ∉ rest.map MonitorWorkResponse.txnHash ∧
        outcome.Speaks ∧ ∃ g, Alone (collect client height state response).1.groupOf hash g := by
      intro found
      obtain ⟨unanswered, speaks, g, alone⟩ := collecting.finished hash outcome found
      rw [map_cons, mem_cons, not_or] at unanswered
      exact ⟨unanswered.2, speaks, g, alone_kept hash g unanswered.1 alone⟩
    rw [views.finishedTxs] at finished
    by_cases finishes : response.outcome.finishes client monitoredTxn = true
    · rw [if_pos finishes] at finished
      by_cases same : hash = response.txnHash
      · subst same
        rw [update_self, Option.some.injEq] at finished
        subst finished
        refine ⟨later, Outcome.speaks finishes, monitoredTxn.retryGroup, ?_⟩
        rw [(views.kept (Outcome.replacement_of_finishes finishes)).2]
        exact lone finishes
      · rw [update_of_ne same] at finished
        exact earlier finished
    · rw [if_neg finishes] at finished
      exact earlier finished

theorem Collecting.run (height : ℕ) : ∀ {state}, Collecting client subscribers responses state →
      Collecting client subscribers [] (responses.foldl (collect client height) state) := by
  induction responses with
  | nil => exact fun collecting => collecting
  | cons response rest ih => exact fun collecting => ih (collecting.step height)

theorem Collecting.finished_run (height : ℕ) (outcome : Outcome) :
    ∀ {state}, Collecting client subscribers responses state → state.2 hash = some outcome →
      Alone state.1.groupOf hash g →
      (responses.foldl (collect client height) state).2 hash = some outcome ∧
        Alone (responses.foldl (collect client height) state).1.groupOf hash g := by
  induction responses with
  | nil => exact fun _ found alone => ⟨found, alone⟩
  | cons response rest ih =>
    intro state collecting found alone
    obtain ⟨monitoredTxn, known, _⟩ := collecting.requested response mem_cons_self
    obtain ⟨_, alone_kept⟩ := collecting.collect_keeps known height
    have apart : hash ≠ response.txnHash := by
      rintro rfl
      exact (collecting.finished _ outcome found).1 mem_cons_self
    refine ih (collecting.step height) ?_ (alone_kept hash g apart alone)
    rw [(collect_views client known height).finishedTxs]
    split
    · rw [update_of_ne apart, found]
    · exact found

theorem Collecting.finishes (height : ℕ) (mem : response ∈ responses) :
    ∀ {state}, Collecting client subscribers responses state →
      state.1.monitoredTxns response.txnHash = some monitoredTxn →
      response.outcome.finishes client monitoredTxn = true →
      (responses.foldl (collect client height) state).2 response.txnHash = some response.outcome ∧
        Alone (responses.foldl (collect client height) state).1.groupOf response.txnHash
          monitoredTxn.retryGroup := by
  induction responses with
  | nil => cases mem
  | cons first rest ih =>
    intro state collecting known finishes
    obtain ⟨monitoredFirst, knownFirst, lone⟩ := collecting.requested first mem_cons_self
    rcases mem_cons.mp mem with rfl | later
    · obtain rfl : monitoredFirst = monitoredTxn := Option.some.inj (knownFirst.symm.trans known)
      have views := collect_views client known height
      refine (collecting.step height).finished_run height _ ?_ ?_
      · rw [views.finishedTxs, if_pos finishes, update_self]
      · rw [(views.kept (Outcome.replacement_of_finishes finishes)).2]
        exact lone finishes
    · refine ih later (collecting.step height) ?_ finishes
      rw [(collect_views client knownFirst height).others, known]
      · intro same
        exact (nodup_cons.mp collecting.once).1 (same ▸ mem_map_of_mem later)
      · intro replaced
        rw [collecting.fresh first mem_cons_self _ replaced] at known
        cases known

private theorem recordGas_frame (wb : WatcherBackend) (monitoredTxn : Monitored)
    (outcome : Outcome) :
    (wb.recordGas monitoredTxn outcome).monitoredTxns = wb.monitoredTxns ∧
    (wb.recordGas monitoredTxn outcome).retryGroups = wb.retryGroups ∧
    (wb.recordGas monitoredTxn outcome).receipts = wb.receipts := by
  unfold recordGas
  split <;> exact ⟨rfl, rfl, rfl⟩

private theorem dispatchOne_single {id : ℕ} (known : wb.monitoredTxns hash = some monitoredTxn)
    (present : wb.retryGroups monitoredTxn.retryGroup = some ⟨[hash], id⟩) (outcome : Outcome) :
    (wb.dispatchOne hash outcome).monitoredTxns = update wb.monitoredTxns hash none ∧
    (wb.dispatchOne hash outcome).retryGroups = update wb.retryGroups monitoredTxn.retryGroup none ∧
    (wb.dispatchOne hash outcome).receipts = wb.receipts.modify id fun r =>
      SharedReceipt.writeReceipt r outcome.toReceipt outcome.toError := by
  obtain ⟨monitoredTxns, retryGroups, receipts⟩ := recordGas_frame wb monitoredTxn outcome
  simp [dispatchOne, known, present, sendReceipt, removeFromGroup, Group.remove_single,
    Group.isEmpty, monitoredTxns, retryGroups, receipts]

private theorem dispatchOne_alone (consistent : wb.Consistent subscribers)
    (alone : Alone wb.groupOf hash g) (speaks : outcome.Speaks) :
    (wb.dispatchOne hash outcome).Consistent subscribers ∧
      (wb.dispatchOne hash outcome).groupOf = update wb.groupOf hash none := by
  obtain ⟨monitoredTxn, known, rfl⟩ := groupOf_eq_some_iff.mp alone.1
  obtain ⟨⟨internalGroup, id⟩, present, single⟩ :=
    Option.map_eq_some_iff.mp (consistent.grouped.alone alone)
  obtain rfl : internalGroup = [hash] := single
  obtain ⟨monitoredTxns, retryGroups, receipts⟩ := dispatchOne_single known present outcome
  have groupOf : (wb.dispatchOne hash outcome).groupOf = update wb.groupOf hash none := by
    rw [WatcherBackend.groupOf, monitoredTxns, comp_update]
    rfl
  have awaited : (wb.dispatchOne hash outcome).awaited = update wb.awaited monitoredTxn.retryGroup
      none := by
    rw [WatcherBackend.awaited, retryGroups, comp_update]
    rfl
  have awaits : wb.awaited monitoredTxn.retryGroup = some id := by
    rw [WatcherBackend.awaited, comp_apply, present, Option.map_some]
  have written : (wb.dispatchOne hash outcome).Ready id := by
    obtain ⟨content, ready⟩ := SharedReceipt.writeReceipt_ready (wb.receipts.getD id none) speaks
    refine ⟨content, ?_⟩
    rw [receipts, getElem?_modify_eq, ← ready]
    simp [getElem?_eq_getElem (consistent.made _ _ awaits)]
  have kept : ∀ {id'}, wb.Ready id' → (wb.dispatchOne hash outcome).Ready id' := by
    rintro id' ⟨content, found⟩
    refine ⟨content, ?_⟩
    rw [receipts, getElem?_modify, found]
    split
    · exact congrArg some (SharedReceipt.writeReceipt_some content)
    · rfl
  refine ⟨⟨?_, ?_, ?_⟩, groupOf⟩
  · rw [groupOf, members, retryGroups, comp_update]
    exact consistent.grouped.close alone
  · intro g id' waits
    rw [awaited] at waits
    rw [receipts, length_modify]
    by_cases same : g = monitoredTxn.retryGroup
    · subst same
      rw [update_self] at waits
      cases waits
    · rw [update_of_ne same] at waits
      exact consistent.made g id' waits
  · intro s mem
    rcases consistent.answered s mem with ready | waits
    · exact .inl (kept ready)
    · by_cases same : s.1 = monitoredTxn.retryGroup
      · rw [same, awaits, Option.some.injEq] at waits
        exact .inl (waits ▸ written)
      · rw [awaited, update_of_ne same]
        exact .inr waits

theorem dispatchFinishedTxs_alone (nodup : order.Nodup) :
    ∀ {wb : WatcherBackend}, wb.Consistent subscribers →
      (∀ hash ∈ order, ∀ outcome, finishedTxs hash = some outcome →
        outcome.Speaks ∧ ∃ g, Alone wb.groupOf hash g) →
      (wb.dispatchFinishedTxs finishedTxs order).Consistent subscribers ∧
      (∀ hash ∈ order, (finishedTxs hash).isSome →
        (wb.dispatchFinishedTxs finishedTxs order).groupOf hash = none) ∧
      ∀ hash g, (wb.dispatchFinishedTxs finishedTxs order).groupOf hash = some g →
        wb.groupOf hash = some g := by
  induction order with
  | nil => exact fun consistent _ => ⟨consistent, by simp, fun _ _ found => found⟩
  | cons first rest ih =>
    intro wb consistent alone
    obtain ⟨absent, nodup⟩ := nodup_cons.mp nodup
    cases found : finishedTxs first with
    | none =>
      have same : wb.dispatchFinishedTxs finishedTxs (first :: rest) =
          wb.dispatchFinishedTxs finishedTxs rest := by
        simp only [dispatchFinishedTxs, foldl_cons, found]
      rw [same]
      obtain ⟨kept, gone, fewer⟩ := ih nodup consistent fun hash mem =>
        alone hash (mem_cons_of_mem _ mem)
      refine ⟨kept, fun hash mem finished => ?_, fewer⟩
      rcases mem_cons.mp mem with rfl | later
      · rw [found] at finished
        cases finished
      · exact gone hash later finished
    | some outcome =>
      have same : wb.dispatchFinishedTxs finishedTxs (first :: rest) =
          (wb.dispatchOne first outcome).dispatchFinishedTxs finishedTxs rest := by
        simp only [dispatchFinishedTxs, foldl_cons, found]
      rw [same]
      obtain ⟨speaks, g, lone⟩ := alone first mem_cons_self outcome found
      obtain ⟨next, groupOf⟩ := dispatchOne_alone consistent lone speaks
      obtain ⟨kept, gone, fewer⟩ := ih nodup next (by
        intro hash mem outcome' found'
        obtain ⟨speaks', g', lone'⟩ := alone hash (mem_cons_of_mem _ mem) outcome' found'
        refine ⟨speaks', g', ?_⟩
        rw [groupOf]
        exact lone'.close fun same => absent (same ▸ mem))
      have before : ∀ hash g, (wb.dispatchOne first outcome).groupOf hash = some g →
          wb.groupOf hash = some g := by
        intro hash g mem
        rw [groupOf] at mem
        by_cases own : hash = first
        · subst own
          simp at mem
        · rwa [update_of_ne own] at mem
      refine ⟨kept, fun hash mem finished => ?_, fun hash g present =>
        before hash g (fewer hash g present)⟩
      rcases mem_cons.mp mem with rfl | later
      · rw [Option.eq_none_iff_forall_ne_some]
        intro g' present
        have still := fewer _ _ present
        rw [groupOf, update_self] at still
        cases still
      · exact gone hash later finished

structure Poll.Valid (client : Client) (wb : WatcherBackend) (poll : Poll) : Prop where
  monitored : ∀ hash, hash ∈ poll.monitored ↔ (wb.monitoredTxns hash).isSome
  requested : ∀ response ∈ poll.responses, response.txnHash ∈ poll.monitored
  once : (poll.responses.map MonitorWorkResponse.txnHash).Nodup
  order_nodup : poll.order.Nodup
  order : ∀ blockInfo, poll.header = some blockInfo →
    ∀ hash, hash ∈ poll.order ↔ ((wb.respond client blockInfo.height poll.responses).2 hash).isSome

theorem Poll.Valid.of_executeWork {poll : Poll}
    {requests : List (Monitored × List WorkerPool.Attempt)}
    (monitored : ∀ hash, hash ∈ poll.monitored ↔ (wb.monitoredTxns hash).isSome)
    (asked : requests.map (fun request => request.1.txn.hash) = poll.monitored)
    (distinct : poll.monitored.Nodup)
    (responses : poll.responses.Perm (WorkerPool.executeWork client height requests))
    (order_nodup : poll.order.Nodup)
    (order : ∀ blockInfo, poll.header = some blockInfo → ∀ hash, hash ∈ poll.order ↔
      ((wb.respond client blockInfo.height poll.responses).2 hash).isSome) :
    poll.Valid client wb := by
  have once := WorkerPool.worker_once client height requests
  rw [asked] at once
  have arrived := responses.map MonitorWorkResponse.txnHash
  refine ⟨monitored, fun response mem => ?_, arrived.nodup_iff.mpr (once.nodup distinct),
    order_nodup, order⟩
  exact once.subset (arrived.mem_iff.mp (mem_map_of_mem mem))

structure Poll.Lone (client : Client) (wb : WatcherBackend) (poll : Poll) : Prop where
  lone : ∀ response ∈ poll.responses, ∀ monitoredTxn, wb.monitoredTxns response.txnHash =
    some monitoredTxn → response.outcome.finishes client monitoredTxn = true →
    Alone wb.groupOf response.txnHash monitoredTxn.retryGroup
  fresh : ∀ response ∈ poll.responses, ∀ new, response.outcome.replacement = some new →
    wb.monitoredTxns new = none
  distinct : (poll.responses.filterMap fun response => response.outcome.replacement).Nodup

structure Poll.Completes (wb : WatcherBackend) (poll : Poll) (blockInfo : Block) : Prop where
  header : poll.header = some blockInfo
  unseen : wb.lastProcessedBlock ≠ blockInfo
  fees : poll.feesKnown = true
  alive : poll.alive = true

variable {poll : Poll}

theorem startMonitoring_retryGroup (height : ℕ) (monitoredTxn : Monitored) :
    (startMonitoring height monitoredTxn).retryGroup = monitoredTxn.retryGroup := by
  unfold startMonitoring
  split <;> rfl

/-- The state in which the responses arrive. -/
def watched (wb : WatcherBackend) (height : ℕ) : WatcherBackend :=
  { wb with monitoredTxns := fun hash => (wb.monitoredTxns hash).map (startMonitoring height) }

private theorem watched_groupOf (wb : WatcherBackend) (height : ℕ) :
    (wb.watched height).groupOf = wb.groupOf := by
  funext hash
  cases known : wb.monitoredTxns hash with
  | none => simp [groupOf, watched, known]
  | some monitoredTxn => simp [groupOf, watched, known, startMonitoring_retryGroup]

section

variable (consistent : wb.Consistent subscribers) (valid : poll.Valid client wb)
  (lone : poll.Lone client wb)

include consistent valid lone

theorem Consistent.collecting (height : ℕ) :
    Collecting client subscribers poll.responses (wb.watched height, fun _ => none) where
  consistent := consistent.congr (watched_groupOf wb height) rfl rfl
  requested := by
    intro response mem
    obtain ⟨monitoredTxn, known⟩ :=
      Option.isSome_iff_exists.mp ((valid.monitored _).mp (valid.requested response mem))
    refine ⟨startMonitoring height monitoredTxn, by simp [watched, known], fun finishes => ?_⟩
    rw [Outcome.finishes_startMonitoring] at finishes
    rw [watched_groupOf, startMonitoring_retryGroup]
    exact lone.lone response mem monitoredTxn known finishes
  fresh := by
    intro response mem new replaced
    simp [watched, lone.fresh response mem new replaced]
  once := valid.once
  distinct := lone.distinct
  finished := by simp

theorem Consistent.collectReceipts : (wb.collectReceipts client poll).Consistent subscribers := by
  unfold WatcherBackend.collectReceipts
  split
  · exact consistent
  split
  · exact consistent
  rename_i blockInfo header
  split
  · exact consistent
  have collected := (consistent.collecting valid lone blockInfo.height).run blockInfo.height
  dsimp only
  split
  · have dispatched := dispatchFinishedTxs_alone valid.order_nodup collected.consistent
      fun hash _ outcome found => (collected.finished hash outcome found).2
    exact dispatched.1.congr rfl rfl rfl
  · exact collected.consistent

theorem Consistent.collectReceipts_finishes (completes : poll.Completes wb blockInfo)
    (mem : response ∈ poll.responses)
    (known : wb.monitoredTxns response.txnHash = some monitoredTxn)
    (finishes : response.outcome.finishes client monitoredTxn = true) :
    (wb.collectReceipts client poll).groupOf response.txnHash = none ∧
      ∀ hash, (wb.collectReceipts client poll).groupOf hash ≠ some monitoredTxn.retryGroup := by
  have some_monitored : poll.monitored ≠ [] := ne_nil_of_mem (valid.requested response mem)
  have collecting := consistent.collecting valid lone blockInfo.height
  have collected := collecting.run blockInfo.height
  have watching : (wb.watched blockInfo.height).monitoredTxns response.txnHash =
      some (startMonitoring blockInfo.height monitoredTxn) := by simp [watched, known]
  obtain ⟨finished, alone⟩ := collecting.finishes blockInfo.height mem watching
    (by rwa [Outcome.finishes_startMonitoring])
  rw [startMonitoring_retryGroup] at alone
  obtain ⟨_, gone, fewer⟩ := dispatchFinishedTxs_alone valid.order_nodup collected.consistent
    fun hash _ outcome found => (collected.finished hash outcome found).2
  have ordered : response.txnHash ∈ poll.order := by
    rw [valid.order blockInfo completes.header]
    exact Option.isSome_iff_exists.mpr ⟨_, finished⟩
  have result : (wb.collectReceipts client poll).groupOf =
      ((poll.responses.foldl (collect client blockInfo.height) (wb.watched blockInfo.height,
        fun _ => none)).1
        |>.dispatchFinishedTxs (poll.responses.foldl (collect client blockInfo.height)
          (wb.watched blockInfo.height, fun _ => none)).2 poll.order).groupOf := by
    simp only [WatcherBackend.collectReceipts, if_neg some_monitored, completes.header,
      completes.unseen, completes.fees, completes.alive, Bool.true_eq_false, or_self, if_false,
      if_true]
    rfl
  rw [result]
  have left := gone _ ordered (Option.isSome_iff_exists.mpr ⟨_, finished⟩)
  refine ⟨left, fun hash present => ?_⟩
  rw [alone.2 hash (fewer hash _ present), left] at present
  cases present

end

private theorem collect_unmonitored (absent : state.1.monitoredTxns hash = none)
    (unnamed : response.outcome.replacement ≠ some hash) (height : ℕ) :
    (collect client height state response).1.monitoredTxns hash = none := by
  cases known : state.1.monitoredTxns response.txnHash with
  | none => simpa only [collect, known] using absent
  | some monitoredTxn =>
    have apart : hash ≠ response.txnHash := by
      rintro rfl
      rw [absent] at known
      cases known
    rw [(collect_views client known height).others hash apart unnamed, absent]

private theorem dispatchOne_unmonitored (absent : wb.monitoredTxns hash = none) (txnHash : Hash)
    (outcome : Outcome) : (wb.dispatchOne txnHash outcome).monitoredTxns hash = none := by
  unfold dispatchOne
  split
  · exact absent
  · dsimp only
    by_cases same : hash = txnHash
    · rw [same, update_self]
    · rw [update_of_ne same]
      split
      · exact absent
      · unfold removeFromGroup sendReceipt recordGas
        repeat' split
        all_goals exact absent

theorem collectReceipts_unmonitored (absent : wb.monitoredTxns hash = none)
    (unnamed : ∀ response ∈ poll.responses, response.outcome.replacement ≠ some hash) :
    (wb.collectReceipts client poll).monitoredTxns hash = none := by
  have collected : ∀ height, (wb.respond client height poll.responses).1.monitoredTxns hash =
      none := by
    intro height
    refine foldlRecOn poll.responses _
      (motive := fun state : Collection => state.1.monitoredTxns hash = none) ?_ ?_
    · simp [absent]
    · intro state absent response mem
      exact collect_unmonitored absent (unnamed response mem) height
  unfold collectReceipts
  split
  · exact absent
  split
  · exact absent
  split
  · exact absent
  dsimp only
  split
  · refine foldlRecOn poll.order _
      (motive := fun state : WatcherBackend => state.monitoredTxns hash = none) (collected _) ?_
    intro state absent txnHash _
    split
    · exact absent
    · exact dispatchOne_unmonitored absent _ _
  · exact collected _

def subscribe (wb : WatcherBackend) (req : SubscribeRequest) (response : Option ℕ)
    (subscribers : List Subscriber) : List Subscriber :=
  match req.txn, response with
  | some txn, some id => (wb.subscribed txn, id) :: subscribers
  | _, _ => subscribers

/-- Requests and polls; a transaction finishes only when it is alone in its group. -/
inductive Run (client : Client) : WatcherBackend → List Subscriber → Prop
  | start : Run client empty []
  | queue {wb : WatcherBackend} {subscribers : List Subscriber} (req : SubscribeRequest) :
      Run client wb subscribers →
      Run client (wb.queue client req).1 (wb.subscribe req (wb.queue client req).2 subscribers)
  | poll {wb : WatcherBackend} {subscribers : List Subscriber} (poll : Poll) :
      Run client wb subscribers → poll.Valid client wb → poll.Lone client wb →
      Run client (wb.collectReceipts client poll) subscribers

theorem Run.tidy (run : Run client wb subscribers) : wb.Consistent subscribers := by
  induction run with
  | start => exact Consistent.nil
  | @queue wb subscribers req _ ih =>
    rcases req with ⟨_ | txn, options⟩
    · exact ih
    cases sender : client.extractTransactionSender txn with
    | none => simpa only [WatcherBackend.queue, subscribe, sender] using ih
    | some fromAddr =>
      obtain ⟨id, given, next⟩ := ih.queue options sender
      rw [given]
      exact next
  | poll poll _ valid lone ih => exact ih.collectReceipts valid lone

/-- In every run the groups are exactly those of the monitored transactions and list them once each,
every valid request is given a receipt, and a subscriber whose group has nothing left to wait for
has it: the group is gone and the receipt ready, in particular after a poll in which the last
transaction of the group finishes. -/
theorem Run.subscribers_answered (run : Run client wb subscribers) :
    (∀ g, (wb.retryGroups g).isSome ↔
      ∃ hash monitoredTxn, wb.monitoredTxns hash = some monitoredTxn ∧ monitoredTxn.retryGroup =
        g) ∧
    (∀ g txGroup, wb.retryGroups g = some txGroup → txGroup.internalGroup.Nodup ∧
      ∀ hash, hash ∈ txGroup.internalGroup ↔
        ∃ monitoredTxn, wb.monitoredTxns hash = some monitoredTxn ∧ monitoredTxn.retryGroup = g) ∧
    (∀ txn options, (client.extractTransactionSender txn).isSome →
      (wb.queue client ⟨some txn, options⟩).2.isSome) ∧
    (∀ s ∈ subscribers, (∀ hash monitoredTxn, wb.monitoredTxns hash = some monitoredTxn →
      monitoredTxn.retryGroup ≠ s.1) →
      wb.retryGroups s.1 = none ∧ wb.Ready s.2) ∧
    ∀ poll blockInfo, poll.Valid client wb → poll.Lone client wb → poll.Completes wb blockInfo →
      ∀ response ∈ poll.responses, ∀ monitoredTxn, wb.monitoredTxns response.txnHash =
        some monitoredTxn →
        response.outcome.finishes client monitoredTxn = true →
        (wb.collectReceipts client poll).monitoredTxns response.txnHash = none ∧
        (wb.collectReceipts client poll).retryGroups monitoredTxn.retryGroup = none ∧
        ∀ s ∈ subscribers, s.1 = monitoredTxn.retryGroup →
          (wb.collectReceipts client poll).Ready s.2 := by
  have consistent := run.tidy
  refine ⟨?_, ?_, ?_, ?_, ?_⟩
  · intro g
    have listed := consistent.grouped.listed g
    simpa only [members, comp_apply, Option.isSome_map, groupOf_eq_some_iff] using listed
  · intro g txGroup found
    have listed : wb.members g = some txGroup.internalGroup := by
      rw [members, comp_apply, found]
      rfl
    refine ⟨consistent.grouped.nodup g _ listed, fun hash => ?_⟩
    rw [consistent.grouped.mem_iff g _ listed, groupOf_eq_some_iff]
  · intro txn options sender
    obtain ⟨fromAddr, sender⟩ := Option.isSome_iff_exists.mp sender
    obtain ⟨id, given, _⟩ := consistent.queue options sender
    rw [given]
    rfl
  · intro s mem left
    obtain ⟨gone, ready⟩ := consistent.vacated (g := s.1) (by
      intro hash found
      obtain ⟨monitoredTxn, known, same⟩ := groupOf_eq_some_iff.mp found
      exact left hash monitoredTxn known same)
    exact ⟨gone, ready s mem rfl⟩
  · intro poll blockInfo valid lone completes response mem monitoredTxn known finishes
    obtain ⟨unmonitored, left⟩ :=
      consistent.collectReceipts_finishes valid lone completes mem known finishes
    obtain ⟨gone, ready⟩ := (consistent.collectReceipts valid lone).vacated left
    exact ⟨groupOf_eq_none_iff.mp unmonitored, gone, ready⟩

/-! A transaction that is given up as soon as it is not found. -/

def sampleClient : Client := ⟨fun _ => some 0, 2, 1, 0, 0⟩

def sampleWatcher : WatcherBackend := (empty.queue sampleClient ⟨some ⟨1, []⟩, none⟩).1

def samplePoll (height : ℕ) (monitored : List Hash) (response : MonitorWorkResponse)
    (order : List Hash) : Poll :=
  ⟨some ⟨height, 0⟩, true, monitored, [response], true, order⟩

theorem samplePoll_valid (keys : ∀ hash, hash ∈ monitored ↔ (wb.monitoredTxns hash).isSome)
    (known : wb.monitoredTxns response.txnHash = some monitoredTxn)
    (ordered : order = if response.outcome.finishes client monitoredTxn then [response.txnHash] else
      []) : (samplePoll height monitored response order).Valid client wb where
  monitored := keys
  requested := by
    intro response' mem
    rw [mem_singleton.mp mem]
    exact (keys _).mpr (by rw [known]; rfl)
  once := nodup_singleton _
  order_nodup := by
    change order.Nodup
    rw [ordered]
    split <;> simp
  order := by
    intro blockInfo header hash
    change hash ∈ order ↔
      ((collect client blockInfo.height (wb.watched blockInfo.height, fun _ => none) response).2
      hash).isSome
    have watching : ((wb.watched blockInfo.height, fun _ => none) : Collection).1.monitoredTxns
      response.txnHash =
      some (startMonitoring blockInfo.height monitoredTxn) := by simp [watched, known]
    rw [(collect_views client watching blockInfo.height).finishedTxs,
      Outcome.finishes_startMonitoring, ordered]
    by_cases finishes : response.outcome.finishes client monitoredTxn = true
    · by_cases same : hash = response.txnHash <;> simp [finishes, same]
    · simp [finishes]

theorem sampleWatcher_keys (hash : Hash) :
    hash ∈ [1] ↔ (sampleWatcher.monitoredTxns hash).isSome := by
  simp [sampleWatcher, sampleClient, queue, monitor, empty, update_apply]

def sampleNotFound : Poll := samplePoll 1 [1] ⟨1, .err .txNotFound⟩ [1]

theorem Run.subscribers_answered_sample :
    Run sampleClient sampleWatcher [(1, 0)] ∧
      (sampleWatcher.collectReceipts sampleClient sampleNotFound).retryGroups 1 = none ∧
      (sampleWatcher.collectReceipts sampleClient sampleNotFound).Ready 0 := by
  have run : Run sampleClient sampleWatcher [(1, 0)] := Run.queue ⟨some ⟨1, []⟩, none⟩ Run.start
  have valid : sampleNotFound.Valid sampleClient sampleWatcher :=
    samplePoll_valid sampleWatcher_keys rfl rfl
  have lone : sampleNotFound.Lone sampleClient sampleWatcher := by
    constructor
    · intro response mem monitoredTxn known finishes
      rw [mem_singleton.mp mem] at known ⊢
      refine ⟨groupOf_eq_some_iff.mpr ⟨monitoredTxn, known, rfl⟩, fun hash found => ?_⟩
      obtain ⟨other, present, _⟩ := groupOf_eq_some_iff.mp found
      exact mem_singleton.mp
        ((sampleWatcher_keys hash).mpr (Option.isSome_iff_exists.mpr ⟨other, present⟩))
    · intro response mem new replaced
      rw [mem_singleton.mp mem] at replaced
      cases replaced
    · exact nodup_nil
  obtain ⟨_, _, _, _, finishes⟩ := run.subscribers_answered
  obtain ⟨_, gone, ready⟩ := finishes sampleNotFound ⟨1, 0⟩ valid lone ⟨rfl, by decide, rfl, rfl⟩ _
    (mem_singleton.mpr rfl) _ rfl rfl
  exact ⟨run, gone, ready (1, 0) mem_cons_self rfl⟩

/-! The transaction is replaced. Then neither it nor the replacement is found. -/

def sampleReplaced : WatcherBackend :=
  sampleWatcher.collectReceipts sampleClient (samplePoll 1 [1] ⟨1, .retried (some ⟨2, []⟩)⟩ [])

def sampleOriginalLost : WatcherBackend :=
  sampleReplaced.collectReceipts sampleClient (samplePoll 2 [1, 2] ⟨1, .err .txNotFound⟩ [1])

def sampleBothLost : WatcherBackend :=
  sampleOriginalLost.collectReceipts sampleClient (samplePoll 3 [2] ⟨2, .err .txNotFound⟩ [2])

theorem sampleReplaced_keys (hash : Hash) :
    hash ∈ [1, 2] ↔ (sampleReplaced.monitoredTxns hash).isSome := by
  by_cases first : hash = 1#256
  · subst first
    decide
  by_cases second : hash = 2#256
  · subst second
    decide
  simp [sampleReplaced, sampleWatcher, sampleClient, samplePoll, queue, monitor, empty,
    collectReceipts, respond, collect, handleWorkerResponse, dispatchFinishedTxs, cleanReceiptCache,
    update_apply, first, second]

private theorem sampleOriginalLost_keys (hash : Hash) :
    hash ∈ [2] ↔ (sampleOriginalLost.monitoredTxns hash).isSome := by
  by_cases first : hash = 1
  · subst first
    decide
  by_cases second : hash = 2
  · subst second
    decide
  have absent : sampleReplaced.monitoredTxns hash = none := by
    rw [← Option.not_isSome_iff_eq_none, ← sampleReplaced_keys]
    simpa using ⟨first, second⟩
  rw [sampleOriginalLost,
    collectReceipts_unmonitored absent (by simp [samplePoll, Outcome.replacement])]
  simpa using second

/-- Nothing is monitored any more, but the group is still there and its subscriber waits. -/
theorem replaced_transaction_unanswered :
    Run sampleClient sampleWatcher [(1, 0)] ∧
    (samplePoll 1 [1] ⟨1, .retried (some ⟨2, []⟩)⟩ []).Valid sampleClient sampleWatcher ∧
    (samplePoll 2 [1, 2] ⟨1, .err .txNotFound⟩ [1]).Valid sampleClient sampleReplaced ∧
    (samplePoll 3 [2] ⟨2, .err .txNotFound⟩ [2]).Valid sampleClient sampleOriginalLost ∧
    (∀ hash, sampleBothLost.monitoredTxns hash = none) ∧
    sampleBothLost.retryGroups 1 = some ⟨[2, 2], 0⟩ ∧ ¬ sampleBothLost.Ready 0 := by
  refine ⟨Run.queue ⟨some ⟨1, []⟩, none⟩ Run.start, samplePoll_valid sampleWatcher_keys rfl rfl,
    samplePoll_valid sampleReplaced_keys rfl rfl, samplePoll_valid sampleOriginalLost_keys rfl rfl,
      ?_, by decide, ?_⟩
  · intro hash
    by_cases second : hash = 2
    · subst second
      decide
    have absent : sampleOriginalLost.monitoredTxns hash = none := by
      rw [← Option.not_isSome_iff_eq_none, ← sampleOriginalLost_keys]
      simpa using second
    rw [sampleBothLost,
      collectReceipts_unmonitored absent (by simp [samplePoll, Outcome.replacement])]
  · rintro ⟨content, found⟩
    have waiting : sampleBothLost.receipts[0]? = some none := by decide
    cases found

end WatcherBackend

end AliceNet.Layer1.Watcher
