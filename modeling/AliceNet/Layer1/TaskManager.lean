import AliceNet.Layer1.Monitor
import AliceNet.Layer1.Watcher
import AliceNet.Library.Keyed

/-! The transactions that the task manager keeps for its tasks. -/

namespace AliceNet.Layer1.TaskManager

open Keyed Watcher Monitor

inductive Failure
  | ctxDone
  | taskErr
  | staleTx
  | persist
  deriving Repr, DecidableEq

inductive Reply (α : Type)
  | done (result : α)
  | recoverable
  | unrecoverable
  | ctxDone

def shouldExecute (replies : List (Reply Bool)) : Except Failure Bool :=
  (replies.take MonitorRetryCount).foldr
    (fun reply retry => match reply with
      | .done hasToExecute => .ok hasToExecute
      | .recoverable => retry
      | .unrecoverable => .error .taskErr
      | .ctxDone => .error .ctxDone)
    (.ok true)

/-- The next call of `ManageTask` -/
inductive Stage
  | start
  | prepare
  | shouldExecute
  | execute
  | subscribe (txn : Transaction)
  | isReady
  | removeTxBackup
  | returned (err : Option Failure)
  deriving Repr, DecidableEq

def Stage.isReturned : Stage → Bool
  | .returned _ => true
  | _ => false

/-- What the calls come back with; `Execute` is one with the `AddTxBackup` after it. -/
inductive Answer
  | initialized (ok : Bool)
  | prepared (reply : Reply Unit)
  | asked (replies : List (Reply Bool))
  | executed (reply : Reply (Option Transaction)) (persisted : Bool)
  | subscribed (ok : Bool)
  | cancelled
  | receipt (successful : Bool)
  | receiptErr (stale : Bool)
  | removed (persisted : Bool)

inductive Event
  | answer (answer : Answer)
  | close

structure Managed where
  stage : Stage
  wasKilled : Bool
  txBackup : Option Transaction
  latest : Option Transaction

namespace Managed

/-- The backup may be from before a restart. -/
def scheduled (txBackup : Option Transaction) : Managed := ⟨.start, false, txBackup, txBackup⟩

/-- Where an answer leads to; an answer to another call leads nowhere. -/
def next (task : Managed) (answer : Answer) : Stage :=
  match task.stage, answer with
  | .start, .initialized false => .returned (some .taskErr)
  | .start, .initialized true => match task.txBackup with
    | some txn => .subscribe txn
    | none => .prepare
  | .prepare, .prepared (.done _) => .shouldExecute
  | .prepare, .prepared .recoverable => .prepare
  | .prepare, .prepared .unrecoverable => .returned (some .taskErr)
  | .prepare, .prepared .ctxDone => .returned (some .ctxDone)
  | .shouldExecute, .asked replies => match TaskManager.shouldExecute replies with
    | .error err => .returned (some err)
    | .ok hasToExecute => if hasToExecute then .execute else .removeTxBackup
  | .execute, .executed (.done none) _ => .removeTxBackup
  | .execute, .executed (.done (some txn)) persisted =>
    if persisted then .subscribe txn else .returned (some .persist)
  | .execute, .executed .recoverable _ => .shouldExecute
  | .execute, .executed .unrecoverable _ => .returned (some .taskErr)
  | .execute, .executed .ctxDone _ => .returned (some .ctxDone)
  -- a transaction that is corrupted is made again
  | .subscribe _, .subscribed ok => if ok then .isReady else .shouldExecute
  | .isReady, .cancelled => .returned (some .ctxDone)
  | .isReady, .receipt successful => if successful then .removeTxBackup else .shouldExecute
  | .isReady, .receiptErr stale => if stale then .returned (some .staleTx) else .shouldExecute
  | .isReady, .asked replies => match TaskManager.shouldExecute replies with
    | .error err => .returned (some err)
    | .ok hasToExecute => if hasToExecute then .isReady else .removeTxBackup
  | .removeTxBackup, .removed persisted => .returned (if persisted then none else some .persist)
  | stage, _ => stage

def made (task : Managed) (answer : Answer) : Option Transaction :=
  match task.stage, answer with
  | .execute, .executed (.done txn) _ => txn
  | _, _ => none

def kept (task : Managed) (answer : Answer) : Option Transaction :=
  match task.stage, answer with
  | .removeTxBackup, .removed _ => none
  | _, _ => (task.made answer).or task.txBackup

/-- `ManageTask` removes the backup of a task that was killed. -/
def answered (task : Managed) (answer : Answer) : Managed := { task with
  stage := task.next answer
  txBackup := if task.wasKilled ∧ (task.next answer).isReturned then none else task.kept answer
  latest := (task.made answer).or task.latest }

def step (task : Managed) (event : Event) : Managed :=
  if task.stage.isReturned then task
  else match event with
    | .answer answer => task.answered answer
    | .close => { task with wasKilled := true }

/-- The task has returned, and not because the node shuts down. -/
def Finished (task : Managed) : Prop :=
  ∃ err, task.stage = .returned err ∧ (err = some .ctxDone → task.wasKilled)

/-- A finished task has no backup, and the others at most the latest transaction. -/
structure Clean (task : Managed) : Prop where
  removed : task.Finished → task.txBackup = none
  latest : ∀ txn, task.txBackup = some txn → task.latest = some txn

def Leaks (task : Managed) : Answer → Prop
  | .initialized ok => task.stage = .start ∧ ok = false ∧ task.txBackup ≠ none
  | .prepared (.unrecoverable) => task.stage = .prepare ∧ task.txBackup ≠ none
  | .asked replies => (task.stage = .shouldExecute ∨ task.stage = .isReady) ∧
      TaskManager.shouldExecute replies = .error .taskErr ∧ task.txBackup ≠ none
  | .executed .unrecoverable _ => task.stage = .execute ∧ task.txBackup ≠ none
  | .executed (.done (some _)) persisted => task.stage = .execute ∧ persisted = false
  | .receiptErr stale => task.stage = .isReady ∧ stale = true ∧ task.txBackup ≠ none
  | _ => False

/-- No such answer comes, unless the task was killed. -/
def Tidy (task : Managed) : Event → Prop
  | .close => True
  | .answer answer => task.wasKilled ∨ ¬task.Leaks answer

private theorem shouldExecute_error (failed : TaskManager.shouldExecute replies = .error err) :
    err = .taskErr ∨ err = .ctxDone := by
  unfold TaskManager.shouldExecute at failed
  generalize replies.take MonitorRetryCount = tries at failed
  induction tries with
  | nil => cases failed
  | cons reply rest ih =>
    cases reply with
    | done => cases failed
    | recoverable => exact ih failed
    | unrecoverable => exact .inl (Except.error.inj failed).symm
    | ctxDone => exact .inr (Except.error.inj failed).symm

private theorem not_returned {task : Managed} (leaks : task.Leaks answer) :
    ¬ task.stage.isReturned := by
  unfold Leaks at leaks
  split at leaks <;> grind [Stage.isReturned]

private theorem leaks_iff (task : Managed) (answer : Answer) (running : ¬ task.stage.isReturned) :
    task.Leaks answer ↔
      ∃ err, err ≠ .ctxDone ∧ task.next answer = .returned (some err) ∧ task.kept answer ≠
        none := by
  obtain ⟨stage, wasKilled, txBackup, latest⟩ := task
  cases answer with
  | asked replies =>
    cases outcome : TaskManager.shouldExecute replies with
    | error err =>
      rcases shouldExecute_error outcome with rfl | rfl <;>
        cases stage <;> simp_all [Leaks, next, kept, made, Stage.isReturned]
    | ok hasToExecute =>
      cases hasToExecute <;> cases stage <;> simp_all [Leaks, next, kept, made, Stage.isReturned]
  | executed reply persisted =>
    rcases reply with ⟨_ | txn⟩ | _ | _ | _ <;>
      cases persisted <;> cases stage <;> simp_all [Leaks, next, kept, made, Stage.isReturned]
  | prepared reply =>
    cases reply <;> cases stage <;> simp_all [Leaks, next, kept, made, Stage.isReturned]
  | initialized ok | subscribed ok | receipt ok | receiptErr ok | removed ok =>
    cases ok <;> cases stage <;> cases txBackup <;> simp_all [Leaks, next, kept, made,
      Stage.isReturned]
  | cancelled => cases stage <;> simp_all [Leaks, next, kept, made, Stage.isReturned]

private theorem kept_eq_none {task : Managed} {answer : Answer} (running : ¬ task.stage.isReturned)
    (returned : task.next answer = .returned none) : task.kept answer = none := by
  unfold next at returned
  repeat' split at returned
  all_goals try cases returned
  · rename_i stage _
    simp only [kept, stage]
  · rw [returned] at running
    exact absurd rfl running

theorem Clean.latest_of_kept {task : Managed} (clean : task.Clean) (answer : Answer)
    (txn : Transaction) (kept : task.kept answer = some txn) :
    (task.made answer).or task.latest = some txn := by
  have backup : (task.made answer).or task.txBackup = some txn := by
    unfold Managed.kept at kept
    split at kept
    · cases kept
    · exact kept
  cases made : task.made answer with
  | none =>
    rw [made] at backup
    exact clean.latest txn backup
  | some other =>
    rw [made] at backup
    exact backup

theorem Clean.answered_iff {task : Managed} (clean : task.Clean)
    (running : ¬ task.stage.isReturned) :
    (task.answered answer).Clean ↔ task.Tidy (.answer answer) := by
  have latest := clean.latest_of_kept answer
  rw [Tidy, leaks_iff task answer running]
  unfold answered
  cases next : task.next answer with
  | returned err =>
    by_cases killed : task.wasKilled
    · rw [if_pos ⟨killed, rfl⟩]
      exact iff_of_true ⟨fun _ => rfl, nofun⟩ (Or.inl killed)
    rw [if_neg fun cleanup => killed cleanup.1, or_iff_right killed]
    constructor
    · rintro ⟨removed, _⟩ ⟨err', other, ⟨⟩, backup⟩
      exact backup (removed ⟨some err', rfl, fun done => absurd (Option.some.inj done) other⟩)
    · intro tidy
      refine ⟨?_, latest⟩
      rintro ⟨_, ⟨⟩, done⟩
      cases err with
      | none => exact kept_eq_none running next
      | some err =>
        by_contra backup
        refine tidy ⟨err, ?_, rfl, backup⟩
        rintro rfl
        exact killed (done rfl)
  | _ =>
    refine iff_of_true ⟨?_, ?_⟩ (Or.inr nofun)
    · rintro ⟨_, ⟨⟩, _⟩
    · rw [if_neg fun cleanup => Bool.false_ne_true cleanup.2]
      exact latest

theorem Clean.step_iff {task : Managed} (clean : task.Clean) (event : Event) :
    (task.step event).Clean ↔ task.Tidy event := by
  unfold step
  by_cases ended : task.stage.isReturned
  · rw [if_pos ended]
    refine iff_of_true clean ?_
    cases event with
    | answer => exact Or.inr fun leaks => not_returned leaks ended
    | close => trivial
  rw [if_neg ended]
  cases event with
  | answer => exact clean.answered_iff ended
  | close =>
    refine iff_of_true ⟨?_, clean.latest⟩ trivial
    rintro ⟨err, returned, _⟩
    rw [show task.stage = .returned err from returned] at ended
    exact absurd rfl ended

end Managed

/-- At every moment of every run of all the tasks a finished task has no transaction in `TxsBackup`
and the others have at most their latest one, exactly if no task ends with an error of its own while
it has a backup and is not killed. -/
theorem txsBackup_clean_iff (txsBackup : String → Option Transaction)
    (events : List (String × Event)) :
    Along (stepAt Managed.step) (fun tm event => ∀ id, (stepAt Managed.step tm event id).Clean)
      (fun id => .scheduled (txsBackup id)) events ↔
    Along (stepAt Managed.step) (fun tm event => (tm event.1).Tidy event.2)
      (fun id => .scheduled (txsBackup id)) events := by
  refine along_invariant_iff (fun tm : String → Managed => ∀ id, (tm id).Clean) ?_ ?_
  · exact fun id => ⟨nofun, fun _ backup => backup⟩
  · intro tm event clean
    rw [← (clean event.1).step_iff, stepAt, Function.forall_update_iff tm (fun _ task =>
      task.Clean)]
    exact and_iff_left fun id _ => clean id

/-- A transaction is made and reverted, after which the task fails: the backup stays for ever. -/
theorem txsBackup_left :
    let task :=
    ([.initialized true, .prepared (.done ()), .asked [.done true],
    .executed (.done (some ⟨1, []⟩)) true,
      .subscribed true, .receipt false, .asked [.done true], .executed .unrecoverable true].map
        Event.answer).foldl
      Managed.step (.scheduled none)
    task.stage = .returned (some .taskErr) ∧ task.wasKilled = false ∧ task.txBackup = some ⟨1, []⟩ ∧
      ∀ events : List Event, events.foldl Managed.step task = task := by
  refine ⟨by decide, by decide, by decide, fun events => ?_⟩
  induction events with
  | nil => rfl
  | cons event rest ih => exact ih

end AliceNet.Layer1.TaskManager
