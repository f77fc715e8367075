import AliceNet.Layer1.DkgSchedule
import AliceNet.Layer1.ValidatorSetAssembly
import AliceNet.Library.Keyed

/-! The windows of a node's tasks are windows of the contract. -/

namespace AliceNet.Layer1.DkgSchedule

open Outcome Option
open Crypto (Curve)
open Bridge.Ethdkg
open List hiding count next

def Kind.lag : Phase → Kind → Option ℕ
  | .RegistrationOpen, .Register => some 0
  | .RegistrationOpen, .DisputeMissingRegistration => some 1
  | .ShareDistribution, .ShareDistribution => some 0
  | .ShareDistribution, .DisputeMissingShareDistribution => some 1
  | .ShareDistribution, .DisputeShareDistribution _ => some 1
  | .DisputeShareDistribution, .DisputeShareDistribution _ => some 0
  | .DisputeShareDistribution, .KeyShareSubmission => some 1
  | .DisputeShareDistribution, .DisputeMissingKeyShares => some 2
  | .KeyShareSubmission, .KeyShareSubmission => some 0
  | .KeyShareSubmission, .DisputeMissingKeyShares => some 1
  | .MPKSubmission, .MPKSubmission => some 0
  | .GPKJSubmission, .GPKjSubmission => some 0
  | .GPKJSubmission, .DisputeMissingGPKj => some 1
  | .GPKJSubmission, .DisputeGPKj _ => some 1
  | .DisputeGPKJSubmission, .DisputeGPKj _ => some 0
  | .DisputeGPKJSubmission, .Completion => some 1
  | _, _ => none

/-- The task is over, or its window is one of the contract's phase. -/
inductive Timely (w : World) (task : Task) : Prop
  | expired (ended : task.stop ≤ w.number)
  | placed (count : ℕ) (lag : task.kind.lag w.dkg.ethdkgPhase = some count)
      (start : task.start = w.dkg.phaseStartBlock + count * w.dkg.phaseLength)
      (stop : task.stop = w.dkg.phaseStartBlock + (count + 1) * w.dkg.phaseLength)

/-- Blocks are far below the bounds of their types, and none passes while a round waits for its
first key share. -/
inductive Prompt (contract : Contract) (curve : Curve) : World → Prop
  | start (phaseLength confirmationLength epoch number : ℕ) (pos : 0 < number)
      (short : 2 * phaseLength < 2 ^ 16) (confirmed : confirmationLength < 2 ^ 16)
        (early : number + 2 ^ 18 ≤ 2 ^ 64) :
      Prompt contract curve (deployed phaseLength confirmationLength epoch number)
  | step (run : Prompt contract curve w) (depth : ℕ)
      (step : Step contract curve (Nested contract curve depth) w w') :
      Prompt contract curve w'
  | block (run : Prompt contract curve w) (number : ℕ) (later : w.number ≤ number)
      (early : number + 2 ^ 18 ≤ 2 ^ 64)
      (prompt : w.dkg.ethdkgPhase = .DisputeShareDistribution → w.dkg.badParticipants = 0 →
        number ≤ w.dkg.phaseStartBlock + w.dkg.phaseLength) :
      Prompt contract curve { w with number }

section

variable {w w' : World} {task : Task} {node : Node}

/-- The arithmetic of the windows stays within its types. -/
structure Bounded (w : World) : Prop where
  short : 2 * w.dkg.phaseLength < 2 ^ 16
  far : w.dkg.phaseStartBlock + 2 * w.dkg.phaseLength < 2 ^ 64

private theorem guard_of_open (opens : KeySharesOpen w v) (short : 2 * w.dkg.phaseLength < 2 ^ 16) :
    Kind.guard w .KeyShareSubmission = .ok () :=
  bind_ok_iff.mpr ⟨v, openKeyShareSubmission_ok_iff.mpr ⟨opens, fun _ => short⟩, rfl⟩

theorem Timely.accepted (timely : Timely w task) (bounded : Bounded w)
    (running : ¬Over w.dkg w.number) (begun : task.start ≤ w.number)
    (unexpired : w.number < task.stop) : task.kind.guard w = .ok () := by
  cases timely with
  | expired ended => omega
  | placed count lag start stop =>
    rw [start] at begun
    rw [stop] at unexpired
    generalize task.kind = kind at lag
    generalize current : w.dkg.ethdkgPhase = phase at lag
    have inTime : w.number < w.dkg.phaseStartBlock + 2 * w.dkg.phaseLength :=
      not_le.mp fun late => running (.inr (.inr (.inl late)))
    have undisputed (dispute : phase.dispute) (late : w.dkg.phaseStartBlock + w.dkg.phaseLength ≤
        w.number) : w.dkg.badParticipants = 0 := by
      by_contra bad
      exact running (.inr (.inr (.inr ⟨current ▸ dispute, late, bad⟩)))
    obtain ⟨short, far⟩ := bounded
    have first (opened : w.dkg.phaseStartBlock ≤ w.number)
        (early : w.number < w.dkg.phaseStartBlock + w.dkg.phaseLength) : Submitting w phase :=
      ⟨current, opened, early, by omega⟩
    have second (opened : w.dkg.phaseStartBlock + w.dkg.phaseLength ≤ w.number) :
        Awaiting w phase :=
      ⟨current, opened, inTime, far⟩
    unfold Kind.lag at lag
    split at lag <;> cases lag
    all_goals norm_num at begun unexpired
    · exact submissionWindow_ok_iff.mpr (first begun unexpired)
    · exact accusationWindow_ok_iff.mpr ⟨short, second begun⟩
    · exact submissionWindow_ok_iff.mpr (first begun unexpired)
    · exact accusationWindow_ok_iff.mpr ⟨short, second begun⟩
    · exact disputeWindow_ok_iff.mpr (.inr ⟨short, second begun⟩)
    · exact disputeWindow_ok_iff.mpr (.inl (first begun unexpired))
    · exact guard_of_open (.opens (second begun) (undisputed (.inl rfl) begun)) short
    · omega
    · exact guard_of_open (.already (first begun unexpired)) short
    · exact accusationWindow_ok_iff.mpr ⟨short, second begun⟩
    · exact submissionWindow_ok_iff.mpr (first begun unexpired)
    · exact submissionWindow_ok_iff.mpr (first begun unexpired)
    · exact accusationWindow_ok_iff.mpr ⟨short, second begun⟩
    · exact disputeWindow_ok_iff.mpr (.inr ⟨short, second begun⟩)
    · exact disputeWindow_ok_iff.mpr (.inl (first begun unexpired))
    · exact bind_ok_iff.mpr ⟨(), accusationWindow_ok_iff.mpr ⟨short, second begun⟩,
        require_ok_iff.mpr (undisputed (.inr rfl) begun)⟩

theorem Prompt.run (prompt : Prompt contract curve w) : Run contract curve w := by
  induction prompt with
  | start phaseLength confirmationLength epoch number pos => exact .start _ _ _ _ pos
  | step _ depth step run => exact run.step depth step
  | block _ number later _ _ run => exact run.block number later

/-- What the node keeps of the round -/
structure Knows (w : World) (node : Node) (d : DkgState) : Prop where
  found : node.dkgState = some d
  nonce : d.nonce = w.dkg.nonce
  phaseLength : d.phaseLength = w.dkg.phaseLength
  confirmationLength : d.confirmationLength = w.dkg.confirmationLength
  idle : d.isValidator = false → ∀ task ∈ node.tasks, task.nonce ≠ w.dkg.nonce

theorem Knows.frame (knows : Knows w node d) (nonce : w'.dkg.nonce = w.dkg.nonce)
    (phaseLength : w'.dkg.phaseLength = w.dkg.phaseLength)
    (confirmationLength : w'.dkg.confirmationLength = w.dkg.confirmationLength) :
    Knows w' node d where
  found := knows.found
  nonce := knows.nonce.trans nonce.symm
  phaseLength := knows.phaseLength.trans phaseLength.symm
  confirmationLength := knows.confirmationLength.trans confirmationLength.symm
  idle absent := nonce ▸ knows.idle absent

/-- The bounds of the clock, and that the first key share is not late -/
structure Clocked (w : World) : Prop where
  short : 2 * w.dkg.phaseLength < 2 ^ 16
  confirmed : w.dkg.confirmationLength < 2 ^ 16
  early : w.number + 2 ^ 18 ≤ 2 ^ 64
  starts : w.dkg.phaseStartBlock ≤ w.number + w.dkg.confirmationLength
  prompt : w.dkg.ethdkgPhase = .DisputeShareDistribution → w.dkg.badParticipants = 0 →
    w.number ≤ w.dkg.phaseStartBlock + w.dkg.phaseLength

structure Follows (w : World) (node : Node) : Prop where
  clocked : Clocked w
  knows : w.dkg.nonce ≠ 0 → ∃ d, Knows w node d
  earlier : ∀ task ∈ node.tasks, task.nonce ≤ w.dkg.nonce
  timely : w.dkg.ethdkgPhase ≠ .Completion → ∀ task ∈ node.tasks, task.nonce = w.dkg.nonce →
    Timely w task

theorem Clocked.bounded (clocked : Clocked w) : Bounded w := by
  obtain ⟨short, confirmed, early, starts, _⟩ := clocked
  exact ⟨short, by omega⟩

variable {kind : Kind} {update : DkgState → ℕ → DkgState × List Task} {killed : Kind → Bool}
  {members : List Address}

private theorem lag_le (lag : kind.lag phase = some count) : count ≤ 2 := by
  unfold Kind.lag at lag
  split at lag <;> cases lag <;> decide

theorem DkgState.after_eq (d : DkgState) (bounded : d.phaseStart + count * d.phaseLength < 2 ^ 64) :
    d.after count = d.phaseStart + count * d.phaseLength := by
  induction count with
  | zero => simp [DkgState.after]
  | succ count ih =>
    have next : d.phaseStart + count * d.phaseLength + d.phaseLength < 2 ^ 64 := by
      rwa [Nat.succ_mul, ← Nat.add_assoc] at bounded
    rw [DkgState.after, ih (by omega), plus, Nat.mod_eq_of_lt next, Nat.succ_mul, Nat.add_assoc]

structure SameClock (w w' : World) : Prop where
  phase : w'.dkg.ethdkgPhase = w.dkg.ethdkgPhase
  start : w'.dkg.phaseStartBlock = w.dkg.phaseStartBlock
  nonce : w'.dkg.nonce = w.dkg.nonce
  phaseLength : w'.dkg.phaseLength = w.dkg.phaseLength
  confirmationLength : w'.dkg.confirmationLength = w.dkg.confirmationLength
  number : w'.number = w.number
  blamed : w'.dkg.badParticipants = 0 → w.dkg.badParticipants = 0

theorem SameClock.records (w : World) (account : Address) (participant : Participant)
    (event : Event) : SameClock w ((w.setParticipant account participant).emit event) :=
  ⟨rfl, rfl, rfl, rfl, rfl, rfl, id⟩

/-- The node keeps its tasks and what it knows of the round. -/
structure SameTasks (node node' : Node) : Prop where
  tasks : node'.tasks = node.tasks
  state : ∀ d, node.dkgState = some d → ∃ d', node'.dkgState = some d' ∧ d'.nonce = d.nonce ∧
    d'.phaseLength = d.phaseLength ∧ d'.confirmationLength = d.confirmationLength ∧ d'.isValidator =
      d.isValidator

theorem SameTasks.refl (node : Node) : SameTasks node node :=
    ⟨rfl, fun d found => ⟨d, found, rfl, rfl, rfl, rfl⟩⟩

theorem Timely.frame (timely : Timely w task) (same : SameClock w w') : Timely w' task := by
  cases timely with
  | expired ended => exact .expired (same.number ▸ ended)
  | placed count lag start stop =>
    exact .placed count (same.phase ▸ lag) (by rw [start, same.start, same.phaseLength])
      (by rw [stop, same.start, same.phaseLength])

theorem Follows.frame (follows : Follows w node) (same : SameClock w w')
    (alike : SameTasks node node') : Follows w' node' where
  clocked := by
    obtain ⟨short, confirmed, early, starts, prompt⟩ := follows.clocked
    refine ⟨?_, ?_, ?_, ?_, ?_⟩
    · rwa [same.phaseLength]
    · rwa [same.confirmationLength]
    · rwa [same.number]
    · rwa [same.start, same.number, same.confirmationLength]
    · rw [same.phase, same.start, same.number, same.phaseLength]
      exact fun dispute undisputed => prompt dispute (same.blamed undisputed)
  knows := by
    rw [same.nonce]
    intro enrolled
    obtain ⟨d, found, nonce, phaseLength, confirmationLength, idle⟩ := follows.knows enrolled
    obtain ⟨d', found', nonce', phaseLength', confirmationLength', validator⟩ := alike.state d found
    refine ⟨d', found', ?_, ?_, ?_, ?_⟩
    · rw [nonce', nonce, same.nonce]
    · rw [phaseLength', phaseLength, same.phaseLength]
    · rw [confirmationLength', confirmationLength, same.confirmationLength]
    · rw [validator, alike.tasks, same.nonce]
      exact idle
  earlier := by
    rw [alike.tasks, same.nonce]
    exact follows.earlier
  timely := by
    rw [alike.tasks, same.nonce, same.phase]
    exact fun unfinished task mem current => (follows.timely unfinished task mem current).frame same

theorem Follows.elsewhere (follows : Follows w node) (dkg : w'.dkg = w.dkg)
    (number : w'.number = w.number) : Follows w' node :=
  follows.frame ⟨by rw [dkg], by rw [dkg], by rw [dkg], by rw [dkg], by rw [dkg],
    number, by rw [dkg]; exact id⟩ (.refl node)

structure Updates (update : DkgState → ℕ → DkgState × List Task) (killed : Kind →
    Bool) (phase next : Phase) (start : DkgState → ℕ → ℕ) : Prop where
  state : ∀ d blockNumber, (update d blockNumber).1 = { d with
    phase := next, phaseStart := start d blockNumber }
  tasks : ∀ d blockNumber, ∀ task ∈ (update d blockNumber).2, ∃ kind count,
    kind.lag next = some count ∧ task = (update d blockNumber).1.task kind count
  cleared : ∀ kind, killed kind = false → kind.lag phase = none
  unfinished : phase ≠ .Completion

def delayed (d : DkgState) (blockNumber : ℕ) : ℕ := plus blockNumber d.confirmationLength

private theorem updates_registrationComplete :
    Updates updateStateOnRegistrationComplete Kind.registering .RegistrationOpen .ShareDistribution
      delayed where
  state _ _ := rfl
  tasks _ _ :=
    forall_mem_append.mpr ⟨forall_mem_cons.mpr ⟨⟨_, 0, rfl, rfl⟩,
    forall_mem_singleton.mpr ⟨_, 1, rfl, rfl⟩⟩,
    forall_mem_map.mpr fun _ _ => ⟨_, 1, rfl, rfl⟩⟩
  cleared := by rintro ⟨⟩ live <;> first | rfl | cases live
  unfinished := nofun

private theorem updates_shareDistributionComplete :
    Updates updateStateOnShareDistributionComplete Kind.distributing
    .ShareDistribution .DisputeShareDistribution delayed where
  state _ _ := rfl
  tasks _ _ := forall_mem_append.mpr ⟨forall_mem_map.mpr fun _ _ => ⟨_, 0, rfl, rfl⟩,
    forall_mem_cons.mpr ⟨⟨_, 1, rfl, rfl⟩, forall_mem_singleton.mpr ⟨_, 2, rfl, rfl⟩⟩⟩
  cleared := by rintro ⟨⟩ live <;> first | rfl | cases live
  unfinished := nofun

private theorem updates_keyShareSubmissionComplete :
    Updates updateStateOnKeyShareSubmissionComplete Kind.sharing .KeyShareSubmission .MPKSubmission
      delayed where
  state _ _ := rfl
  tasks _ _ := forall_mem_singleton.mpr ⟨_, 0, rfl, rfl⟩
  cleared := by rintro ⟨⟩ live <;> first | rfl | cases live
  unfinished := nofun

private theorem updates_mpkSet :
    Updates updateStateOnMPKSet Kind.mastering .MPKSubmission .GPKJSubmission (fun _ blockNumber =>
      blockNumber) where
  state _ _ := rfl
  tasks _ _ :=
    forall_mem_append.mpr ⟨forall_mem_cons.mpr ⟨⟨_, 0, rfl, rfl⟩,
    forall_mem_singleton.mpr ⟨_, 1, rfl, rfl⟩⟩,
    forall_mem_map.mpr fun _ _ => ⟨_, 1, rfl, rfl⟩⟩
  cleared := by rintro ⟨⟩ live <;> first | rfl | cases live
  unfinished := nofun

private theorem updates_gpkjSubmissionComplete :
    Updates updateStateOnGPKJSubmissionComplete Kind.grouping .GPKJSubmission .DisputeGPKJSubmission
      delayed where
  state _ _ := rfl
  tasks _ _ := forall_mem_append.mpr ⟨forall_mem_map.mpr fun _ _ => ⟨_, 0, rfl, rfl⟩,
    forall_mem_singleton.mpr ⟨_, 1, rfl, rfl⟩⟩
  cleared := by rintro ⟨⟩ live <;> first | rfl | cases live
  unfinished := nofun

/-- The contract enters a phase of the same round. -/
structure Enters (w w' : World) (next : Phase) : Prop where
  phase : w'.dkg.ethdkgPhase = next
  nonce : w'.dkg.nonce = w.dkg.nonce
  phaseLength : w'.dkg.phaseLength = w.dkg.phaseLength
  confirmationLength : w'.dkg.confirmationLength = w.dkg.confirmationLength
  number : w'.number = w.number
  later : w.number ≤ w'.dkg.phaseStartBlock
  soon : w'.dkg.phaseStartBlock ≤ w.number + w.dkg.confirmationLength

theorem Clocked.enters (clocked : Clocked w) (enters : Enters w w' next) : Clocked w' where
  short := by rw [enters.phaseLength]; exact clocked.short
  confirmed := by rw [enters.confirmationLength]; exact clocked.confirmed
  early := by rw [enters.number]; exact clocked.early
  starts := by rw [enters.number, enters.confirmationLength]; exact enters.soon
  prompt _ _ := by
    rw [enters.number]
    exact enters.later.trans (Nat.le_add_right _ _)

theorem Clocked.timely_task {d : DkgState} (clocked : Clocked w)
    (lag : kind.lag w.dkg.ethdkgPhase = some count) (start : d.phaseStart = w.dkg.phaseStartBlock)
    (phaseLength : d.phaseLength = w.dkg.phaseLength) : Timely w (d.task kind count) := by
  obtain ⟨short, confirmed, early, starts, _⟩ := clocked
  have few := lag_le lag
  have bounded (count : ℕ) (few : count ≤ 3) : d.phaseStart + count * d.phaseLength < 2 ^ 64 := by
    have most : count * d.phaseLength ≤ 3 * d.phaseLength := Nat.mul_le_mul_right _ few
    omega
  refine .placed count lag ?_ ?_
  · rw [DkgState.task, d.after_eq (bounded count (by omega)), start, phaseLength]
  · rw [DkgState.task, d.after_eq (bounded (count + 1) (by omega)), start, phaseLength]

theorem Follows.complete (follows : Follows w node) (enrolled : w.dkg.nonce ≠ 0)
    (current : w.dkg.ethdkgPhase = phase) (updates : Updates update killed phase next start)
    (enters : Enters w w' next)
    (begins : ∀ d : DkgState, d.confirmationLength = w.dkg.confirmationLength →
      start d (w.number % 2 ^ 64) = w'.dkg.phaseStartBlock) :
    ∃ node', processComplete update killed node w.number = .ok node' ∧ Follows w' node' := by
  have clocked := follows.clocked.enters enters
  obtain ⟨d, knows⟩ := follows.knows enrolled
  have stays := knows.frame enters.nonce enters.phaseLength enters.confirmationLength
  obtain ⟨found, nonce, phaseLength, confirmationLength, idle⟩ := knows
  have state : getDkgState node = .ok d := by rw [getDkgState, found]
  by_cases validator : d.isValidator = false
  · refine ⟨node, ?_, clocked, fun _ => ⟨d, stays⟩, ?_, ?_⟩
    · simp [processComplete, state, validator, bind, Except.bind, pure, Except.pure]
    · rw [enters.nonce]
      exact follows.earlier
    · intro _ task mem own
      exact (stays.idle validator task mem own).elim
  have shape := updates.state d (w.number % 2 ^ 64)
  refine ⟨⟨some (update d (w.number % 2 ^ 64)).1, node.tasks.filter (fun task =>
    !killed task.kind) ++
    (update d (w.number % 2 ^ 64)).2⟩, ?_, clocked, fun _ => ⟨_, rfl, ?_, ?_, ?_, ?_⟩, ?_, ?_⟩
  · simp [processComplete, state, validator, bind, Except.bind, pure, Except.pure]
  · rw [shape, nonce, enters.nonce]
  · rw [shape, phaseLength, enters.phaseLength]
  · rw [shape, confirmationLength, enters.confirmationLength]
  · rw [shape]
    exact fun absent => (validator absent).elim
  · intro task mem
    rcases mem_append.mp mem with old | new
    · rw [enters.nonce]
      exact follows.earlier task (mem_filter.mp old).1
    · obtain ⟨kind, count, _, rfl⟩ := updates.tasks d _ task new
      rw [DkgState.task, shape, nonce, enters.nonce]
  · intro _ task mem own
    rcases mem_append.mp mem with old | new
    · obtain ⟨listed, kept⟩ := mem_filter.mp old
      have none := updates.cleared task.kind (by simpa using kept)
      rw [← current] at none
      cases follows.timely (current ▸ updates.unfinished) task listed (own.trans enters.nonce) with
      | expired ended => exact .expired (enters.number ▸ ended)
      | placed count lag => cases none.symm.trans lag
    · obtain ⟨kind, count, lag, rfl⟩ := updates.tasks d _ task new
      refine clocked.timely_task (enters.phase ▸ lag) ?_ ?_
      · rw [shape, begins d confirmationLength]
      · rw [shape, phaseLength, enters.phaseLength]

variable {amIValidator : ℕ → Bool}

/-- The node processes what the step has emitted. -/
def Advances (amIValidator : ℕ → Bool) (w w' : World) (node : Node) : Prop :=
  ∃ more node', w'.events = w.events ++ more ∧ processAll amIValidator node more = .ok node' ∧
    Follows w' node'

theorem Advances.of_event (events : v.events = w.events ++ [event])
    (processed : process amIValidator node event = .ok node')
    (advances : Advances amIValidator v w' node') : Advances amIValidator w w' node := by
  obtain ⟨more, last, log, rest, follows⟩ := advances
  refine ⟨event :: more, last, ?_, ?_, follows⟩
  · rw [log, events, append_assoc, singleton_append]
  · rw [processAll, foldlM_cons, processed]
    exact rest

theorem Follows.advances (follows : Follows w' node) (events : w'.events = w.events) :
    Advances amIValidator w w' node :=
  ⟨[], node, by rw [events, append_nil], rfl, follows⟩

private theorem mem_processRegistrationOpened
    (mem : task ∈
      (processRegistrationOpened amI node startBlock nonce phaseLength confirmationLength).tasks) :
    task ∈ node.tasks ∨ amI = true ∧ ∃ kind count, kind.lag .RegistrationOpen = some count ∧
      task = (DkgState.onRegistrationOpened (startBlock % 2 ^ 64) phaseLength confirmationLength
        nonce amI).task kind
        count := by
  cases amI with
  | false => exact .inl mem
  | true =>
    refine (mem_append.mp mem).imp_right fun new => ⟨rfl, ?_⟩
    simp only [mem_cons, not_mem_nil, or_false] at new
    rcases new with rfl | rfl
    exacts [⟨_, 0, rfl, rfl⟩, ⟨_, 1, rfl, rfl⟩]

private theorem lag_keyShares (lag : kind.lag .DisputeShareDistribution = some count) :
    count = 0 ∨ ∃ less, count = less + 1 ∧ kind.lag .KeyShareSubmission = some less := by
  cases kind with
  | DisputeShareDistribution address => exact .inl (some.inj lag).symm
  | KeyShareSubmission => exact .inr ⟨0, (some.inj lag).symm, rfl⟩
  | DisputeMissingKeyShares => exact .inr ⟨1, (some.inj lag).symm, rfl⟩
  | _ => cases lag

private theorem processAll_evicted
    (kinds : ∀ event ∈ reported, event.evicted ≠ none ∨ event.pauses = true) (node : Node) :
    processAll amIValidator node reported = .ok node := by
  induction reported with
  | nil => rfl
  | cons event rest ih =>
    obtain ⟨kind, kinds⟩ := forall_mem_cons.mp kinds
    have passed : process amIValidator node event = .ok node := by
      cases event <;> first | rfl | simp [Event.evicted, Event.pauses] at kind
    rw [processAll, foldlM_cons, passed]
    exact ih kinds

section

variable (follows : Follows w node)

include follows

theorem Follows.initializeETHDKG (ran : ValidatorPool.initializeETHDKG contract w msg = .ok w') :
    Advances amIValidator w w' node := by
  obtain ⟨_, _, opens⟩ := initializeETHDKG_ok ran
  obtain ⟨short, confirmed, early, _, _⟩ := follows.clocked
  have modest : w.number % 2 ^ 64 = w.number := Nat.mod_eq_of_lt (by omega)
  have clocked : Clocked w' := by
    subst opens
    exact ⟨short, confirmed, early, by simp only [modest]; omega, nofun⟩
  have nonce : w'.dkg.nonce = w.dkg.nonce + 1 := by rw [opens]
  have phase : w'.dkg.ethdkgPhase = .RegistrationOpen := by rw [opens]
  have start : w'.dkg.phaseStartBlock = w.number % 2 ^ 64 := by rw [opens]
  have phaseLength : w'.dkg.phaseLength = w.dkg.phaseLength := by rw [opens]
  have confirmationLength : w'.dkg.confirmationLength = w.dkg.confirmationLength := by rw [opens]
  have before : ∀ task ∈ node.tasks, task.nonce < w'.dkg.nonce := by
    rw [nonce]
    exact fun task old => Nat.lt_succ_of_le (follows.earlier task old)
  refine ⟨_, _, by rw [opens], rfl, clocked, fun _ =>
    ⟨_, rfl, nonce.symm, phaseLength.symm, confirmationLength.symm, fun absent task mem => ?_⟩,
    fun task mem => ?_, fun _ task mem current => ?_⟩
  · rcases mem_processRegistrationOpened mem with old | ⟨validator, _⟩
    · exact (before task old).ne
    · cases absent.symm.trans validator
  · rcases mem_processRegistrationOpened mem with old | ⟨_, _, _, _, rfl⟩
    · exact (before task old).le
    · exact nonce.symm.le
  · rcases mem_processRegistrationOpened mem with old | ⟨_, kind, count, lag, rfl⟩
    · exact ((before task old).ne current).elim
    · exact clocked.timely_task (phase ▸ lag) start.symm phaseLength.symm

theorem Follows.closed (enrolled : w.dkg.nonce ≠ 0) (closed : Closed w next numParticipants last w')
    (current : w.dkg.ethdkgPhase = phase) (updates : Updates update killed phase next delayed)
    (reads : process amIValidator node last = processComplete update killed node w.number) :
    Advances amIValidator w w' node := by
  cases closed with
  | stays others =>
    have same : SameClock w (w.counted numParticipants) := ⟨rfl, rfl, rfl, rfl, rfl, rfl, id⟩
    exact (follows.frame same (.refl node)).advances rfl
  | advances phaseStartBlock all starts =>
    obtain ⟨_, confirmed, early, _, _⟩ := follows.clocked
    have modest : w.number % 2 ^ 64 = w.number := Nat.mod_eq_of_lt (by omega)
    rw [modest] at starts
    have enters : Enters w ((w.advanced next phaseStartBlock).emit last) next :=
      ⟨rfl, rfl, rfl, rfl, rfl, starts ▸ Nat.le_add_right _ _, starts.le⟩
    obtain ⟨node', processed, next⟩ :=
        follows.complete enrolled current updates enters fun d same => by
      rw [delayed, plus, modest, same, Nat.mod_eq_of_lt (by omega)]
      exact starts.symm
    exact .of_event rfl (reads.trans processed) (next.advances rfl)

theorem Follows.submits (closed : Closed v next numParticipants last w') (same : SameClock w v)
    (emits : v.events = w.events ++ [event])
    (processed : process amIValidator node event = .ok node') (alike : SameTasks node node')
    (enrolled : w.dkg.nonce ≠ 0) (current : w.dkg.ethdkgPhase = phase)
    (updates : Updates update killed phase next delayed)
    (reads : process amIValidator node' last = processComplete update killed node' w.number) :
    Advances amIValidator w w' node := by
  have advances :=
    (follows.frame same alike).closed (by rwa [same.nonce]) closed (same.phase.trans current)
    updates
    (by rw [same.number]; exact reads)
  exact .of_event emits processed advances

theorem Follows.register
    (ran : Bridge.Ethdkg.register w msg publicKey = .ok w') : Advances amIValidator w w' node := by
  obtain ⟨_, window, fresh, _, closed⟩ := register_ok ran
  have enrolled : w.dkg.nonce ≠ 0 := by omega
  obtain ⟨d, knows⟩ := follows.knows enrolled
  have processed :
      process amIValidator node (.AddressRegistered msg.sender (w.dkg.numParticipants + 1)
      w.dkg.nonce
      publicKey) = .ok { node with dkgState := some (d.onAddressRegistered msg.sender) } := by
    simp only [process, processAddressRegistered, getDkgState, knows.found]
    rfl
  refine follows.submits closed (.records w msg.sender _ _) rfl processed ⟨rfl, fun other found =>
    ⟨_, rfl, ?_⟩⟩ enrolled window.current updates_registrationComplete rfl
  obtain rfl := some.inj (knows.found.symm.trans found)
  exact ⟨rfl, rfl, rfl, rfl⟩

theorem Follows.keySharesOpen (opens : KeySharesOpen w v) :
    Follows v node ∧ v.events = w.events ∧ v.dkg.ethdkgPhase = .KeyShareSubmission := by
  cases opens with
  | already window => exact ⟨follows, rfl, window.current⟩
  | opens window undisputed =>
    obtain ⟨short, confirmed, early, _, prompt⟩ := follows.clocked
    have modest : w.number % 2 ^ 64 = w.number := Nat.mod_eq_of_lt (by omega)
    have first : w.dkg.phaseStartBlock + w.dkg.phaseLength = w.number :=
      le_antisymm window.opened (prompt window.current undisputed)
    rw [modest]
    refine ⟨⟨⟨short, confirmed, early, Nat.le_add_right _ _, nofun⟩,
      fun enrolled => (follows.knows enrolled).imp fun d knows => knows.frame rfl rfl rfl,
        follows.earlier, ?_⟩, rfl, rfl⟩
    intro _ task mem own
    have unfinished : w.dkg.ethdkgPhase ≠ .Completion := by
      rw [window.current]
      nofun
    cases follows.timely unfinished task mem own with
    | expired ended => exact .expired ended
    | placed count lag start stop =>
      rw [window.current] at lag
      rcases lag_keyShares lag with rfl | ⟨less, rfl, next⟩
      · refine .expired ?_
        rw [stop, Nat.zero_add, Nat.one_mul, first]
        exact le_rfl
      · refine .placed less next ?_ ?_
        · rw [start, Nat.succ_mul, Nat.add_comm (less * _), ← Nat.add_assoc, first]
          rfl
        · rw [stop, Nat.succ_mul, Nat.add_comm ((less + 1) * _), ← Nat.add_assoc, first]
          rfl

theorem Follows.finish (ran : Bridge.Ethdkg.complete w msg = .ok w') :
    Advances amIValidator w w' node := by
  obtain ⟨aliceNetHeight, _, _, rfl⟩ := complete_ok ran
  obtain ⟨short, confirmed, early, _, _⟩ := follows.clocked
  refine .of_event rfl rfl (Follows.advances ⟨⟨short, confirmed, early, ?_, nofun⟩,
    fun enrolled => (follows.knows enrolled).imp fun d knows => knows.frame rfl rfl rfl,
      follows.earlier,
    fun unfinished => (unfinished rfl).elim⟩ rfl)
  exact (Nat.mod_le _ _).trans (Nat.le_add_right _ _)

theorem Follows.accused (accused : Accused w w' accounts) : Advances amIValidator w w' node := by
  obtain ⟨badParticipants, customAliceNetHeight, same⟩ := accused.dkg
  obtain ⟨reported, events, kinds, _⟩ := accused.events
  refine ⟨reported, node, events, processAll_evicted kinds node, follows.frame ?_ (.refl node)⟩
  refine ⟨by rw [same], by rw [same], by rw [same], by rw [same], by rw [same], accused.number,
    fun none => ?_⟩
  by_contra some
  exact accused.blamed (.inr some) none

section

variable (inv : w.Inv curve members)

include inv

theorem Follows.distributeShares
    (ran : Bridge.Ethdkg.distributeShares curve w msg encryptedShares commitments = .ok w') :
    Advances amIValidator w w' node := by
  obtain ⟨participant, _, window, _, _, _, closed⟩ := distributeShares_ok ran
  exact follows.submits closed (.records w msg.sender _ _) rfl rfl (.refl node)
    (inv.enrolled_of window.current nofun) window.current updates_shareDistributionComplete rfl

theorem Follows.submitGPKJ
    (ran : Bridge.Ethdkg.submitGPKJ w msg gpkj = .ok w') : Advances amIValidator w w' node := by
  obtain ⟨participant, _, window, _, _, _, _, closed⟩ := submitGPKJ_ok ran
  exact follows.submits closed (.records w msg.sender _ _) rfl rfl (.refl node)
    (inv.enrolled_of window.current nofun) window.current updates_gpkjSubmissionComplete rfl

theorem Follows.submitKeyShare
    (ran : Bridge.Ethdkg.submitKeyShare curve w msg keyShareG1 proof keyShareG2 = .ok w') :
    Advances amIValidator w w' node := by
  obtain ⟨v, mpkG1, participant, _, opens, _, _, _, _, closed⟩ := submitKeyShare_ok ran
  obtain ⟨next, events, current⟩ := follows.keySharesOpen opens
  have enrolled : v.dkg.nonce ≠ 0 := by
    cases opens with
    | already window => exact inv.enrolled_of window.current nofun
    | opens window _ => exact inv.enrolled_of window.current nofun
  obtain ⟨d, knows⟩ := next.knows enrolled
  have processed :
      process amIValidator node (.KeyShareSubmitted msg.sender participant.index participant.nonce
      keyShareG1 proof keyShareG2) = .ok { node with dkgState := some d.onKeyShareSubmitted } := by
    simp only [process, processKeyShareSubmitted, getDkgState, knows.found]
    rfl
  have advances := next.submits closed ⟨rfl, rfl, rfl, rfl, rfl, rfl, id⟩ rfl processed
    ⟨rfl, fun other found => ⟨_, rfl, by
      obtain rfl := some.inj (knows.found.symm.trans found)
      exact ⟨rfl, rfl, rfl, rfl⟩⟩⟩ enrolled current updates_keyShareSubmissionComplete rfl
  rwa [Advances, events] at advances

theorem Follows.submitMasterPublicKey
    (msg : Msg) (ran : Bridge.Ethdkg.submitMasterPublicKey curve w msg masterPublicKey = .ok w') :
    Advances amIValidator w w' node := by
  obtain ⟨hash, window, rfl⟩ := submitMasterPublicKey_ok msg ran
  have early := follows.clocked.early
  have modest : w.number % 2 ^ 64 = w.number := Nat.mod_eq_of_lt (by omega)
  have enters :
      Enters w (({ w with
      dkg := { w.dkg with masterPublicKey, masterPublicKeyHash := hash } }.advanced
      .GPKJSubmission (w.number % 2 ^ 64)).emit (.MPKSet w.number w.dkg.nonce masterPublicKey))
          .GPKJSubmission :=
    ⟨rfl, rfl, rfl, rfl, rfl, modest.ge, modest.le.trans (Nat.le_add_right _ _)⟩
  obtain ⟨node', processed, next⟩ :=
    follows.complete (inv.enrolled_of window.current nofun) window.current updates_mpkSet enters
    fun _ _ => rfl
  have reads : process amIValidator node (.MPKSet w.number w.dkg.nonce masterPublicKey) =
    .ok node' := processed
  exact .of_event rfl reads (next.advances rfl)

theorem Follows.step (step : Step contract curve (Nested contract curve depth) w w') :
    Advances amIValidator w w' node := by
  have again := step
  cases step with
  | call msg call reaction ran =>
    cases call with
    | initializeETHDKG => exact follows.initializeETHDKG ran
    | pauseConsensusOnArbitraryHeight aliceNetHeight =>
      obtain rfl := pauseConsensusOnArbitraryHeight_ok ran
      exact .of_event rfl rfl
        (Follows.advances (follows.frame ⟨rfl, rfl, rfl, rfl, rfl, rfl, id⟩ (.refl node)) rfl)
    | register publicKey => exact follows.register ran
    | distributeShares encryptedShares commitments => exact follows.distributeShares inv ran
    | submitKeyShare keyShareG1 proof keyShareG2 => exact follows.submitKeyShare inv ran
    | submitMasterPublicKey masterPublicKey => exact follows.submitMasterPublicKey inv msg ran
    | submitGPKJ gpkj => exact follows.submitGPKJ inv ran
    | complete => exact follows.finish ran
    | _ =>
      rcases inv.accusation rfl ran with rfl | accusing
      · exact follows.advances rfl
      · obtain ⟨accounts, accused⟩ := accusing.step (nested_accuses contract curve depth) again
        exact follows.accused accused
  | joins account _ idle | leaves account _ idle =>
    exact .of_event rfl rfl (Follows.advances (follows.elsewhere rfl rfl) rfl)
  | snapshot _ _ => exact Follows.advances (follows.elsewhere rfl rfl) rfl

end

theorem Follows.block (later : w.number ≤ number) (early : number + 2 ^ 18 ≤ 2 ^ 64)
    (prompt : w.dkg.ethdkgPhase = .DisputeShareDistribution → w.dkg.badParticipants = 0 →
      number ≤ w.dkg.phaseStartBlock + w.dkg.phaseLength) : Follows { w with number } node where
  clocked := ⟨follows.clocked.short, follows.clocked.confirmed, early,
    follows.clocked.starts.trans (Nat.add_le_add_right later _), prompt⟩
  knows enrolled := (follows.knows enrolled).imp fun d knows => knows.frame rfl rfl rfl
  earlier := follows.earlier
  timely unfinished task mem own := by
    cases follows.timely unfinished task mem own with
    | expired ended => exact .expired (ended.trans later)
    | placed count lag start stop => exact .placed count lag start stop

end

theorem Prompt.follows (prompt : Prompt contract curve w) (amIValidator : ℕ → Bool) :
    ∃ node, processAll amIValidator {} w.events = .ok node ∧ Follows w node := by
  induction prompt with
  | start phaseLength confirmationLength epoch number pos short confirmed early =>
    exact ⟨{}, rfl, ⟨short, confirmed, early, Nat.zero_le _, nofun⟩, fun enrolled =>
      (enrolled rfl).elim, nofun, nofun⟩
  | step run depth step ih =>
    obtain ⟨node, processed, follows⟩ := ih
    obtain ⟨members, inv⟩ := run.run.inv
    obtain ⟨more, node', events, rest, next⟩ := follows.step inv step
    refine ⟨node', ?_, next⟩
    rw [events, processAll, foldlM_append, bind_ok_iff]
    exact ⟨node, processed, rest⟩
  | block run number later early prompt ih =>
    obtain ⟨node, processed, follows⟩ := ih
    exact ⟨node, processed, follows.block later early prompt⟩

/-- A node that has processed the events so far can make the call of each of its tasks in every
block of the task's window, as long as the round that it was scheduled in is on. -/
theorem Prompt.schedule_fits (prompt : Prompt contract curve w) (amIValidator : ℕ → Bool) :
    ∃ node, processAll amIValidator {} w.events = .ok node ∧
      ∀ task ∈ node.tasks, task.nonce = w.dkg.nonce → ¬Over w.dkg w.number →
        task.start ≤ w.number → w.number < task.stop → task.kind.guard w = .ok () := by
  obtain ⟨node, processed, follows⟩ := prompt.follows amIValidator
  refine ⟨node, processed, fun task mem own running begun unexpired => ?_⟩
  have fits := follows.timely (unfinished_of_not_over running) task mem own
  exact fits.accepted follows.clocked.bounded running begun unexpired

end

theorem Prompt.transact (prompt : Prompt contract curve w) (msg : Msg) (inert : msg.received = id)
    (call : Call) : Prompt contract curve (Bridge.Ethdkg.transact contract curve w msg call) := by
  unfold Bridge.Ethdkg.transact
  split
  · rename_i w' ran
    exact prompt.step 0 (.call msg call (fun v => by rw [inert]; rfl) ran)
  · exact prompt

/-- The block of the next call comes in time. -/
def Punctual (w : World) (call : ℕ × Address × Call) : Prop :=
  max w.number call.1 + 2 ^ 18 ≤ 2 ^ 64 ∧ (w.dkg.ethdkgPhase = .DisputeShareDistribution →
    w.dkg.badParticipants = 0 → max w.number call.1 ≤ w.dkg.phaseStartBlock + w.dkg.phaseLength)

instance : DecidableRel Punctual := fun _ _ => instDecidableAnd

private theorem follow_prompt (prompt : Prompt sampleContract Crypto.Scalars.curve w)
    (punctual : Keyed.Along (fun w call => ValidatorSets.follow w [call]) Punctual w calls) :
    Prompt sampleContract Crypto.Scalars.curve (ValidatorSets.follow w calls) := by
  induction calls generalizing w with
  | nil => exact prompt
  | cons call rest ih =>
    obtain ⟨⟨early, first⟩, later⟩ := punctual
    exact ih ((prompt.block _ (le_max_left _ _) early first).transact _ rfl _) later

def sampleCalls (first : ℕ) : List (ℕ × Address × Call) :=
  (ValidatorSets.sampleRound [1, 2, 3, 4] 100).take 9 ++
    [(first, 1, .submitKeyShare Crypto.CryptoLibrary.H1 ValidatorSets.sampleKeyProof (1, 0, 0, 0))]

def sampleShared (first : ℕ) : World := { ValidatorSets.follow sampleJoined (sampleCalls first) with
    number := 192 }

def sampleDispute : Task := ⟨.DisputeMissingKeyShares, 192, 232, 1⟩

private theorem sampleJoined_prompt : Prompt sampleContract Crypto.Scalars.curve sampleJoined := by
  have empty : Prompt sampleContract Crypto.Scalars.curve (deployed 40 6 1 100) :=
    .start 40 6 1 100 (by decide) (by decide) (by decide) (by decide)
  have one := empty.step 0 (.joins 1 (by decide) rfl)
  have two := one.step 0 (.joins 2 (by decide) rfl)
  have three := two.step 0 (.joins 3 (by decide) rfl)
  exact three.step 0 (.joins 4 (by decide) rfl)

private theorem sampleShared_prompt :
    Prompt sampleContract Crypto.Scalars.curve (sampleShared 152) :=
  (follow_prompt sampleJoined_prompt (by decide +kernel)).block 192 (by decide +kernel) (by decide)
    (by decide +kernel)

theorem sampleDispute_listed (first : ℕ) (either : first = 152 ∨ first = 160) :
    ∃ node, processAll (fun _ => true) {} (sampleShared first).events = .ok node ∧ sampleDispute ∈
      node.tasks := by
  have listed : (processAll (fun _ => true) {} (sampleShared first).events).toOption.map
      (fun node => decide (sampleDispute ∈ node.tasks)) = some true := by
    rcases either with rfl | rfl <;> decide +kernel
  obtain ⟨node, processed, mem⟩ := map_eq_some_iff.mp listed
  exact ⟨node, ValidatorSets.toOption_eq_some_iff.mp processed, of_decide_eq_true mem⟩

theorem Prompt.schedule_fits_shared : sampleDispute.kind.guard (sampleShared 152) = .ok () := by
  obtain ⟨node, processed, fits⟩ := Prompt.schedule_fits sampleShared_prompt fun _ => true
  obtain ⟨_, same, mem⟩ := sampleDispute_listed 152 (.inl rfl)
  obtain rfl := Except.ok.inj (processed.symm.trans same)
  exact fits sampleDispute mem (by decide +kernel) (by unfold Over; decide +kernel) (by decide)
    (by decide)

/-- The first key share comes eight blocks after the first block for it. In the first block of its
window the node's accusation is rejected, although the phase is the one that it is about. -/
theorem Run.accusation_rejected : ∃ w node, Run sampleContract Crypto.Scalars.curve w ∧
    processAll (fun _ => true) {} w.events = .ok node ∧ w.dkg.ethdkgPhase = .KeyShareSubmission ∧
    ∃ task ∈ node.tasks, task.kind = .DisputeMissingKeyShares ∧ task.nonce = w.dkg.nonce ∧
      ¬Over w.dkg w.number ∧
      task.start ≤ w.number ∧ w.number < task.stop ∧
      task.kind.guard w =
        .error (.IncorrectPhase .KeyShareSubmission 192 [⟨.KeyShareSubmission, 200, 240⟩]) := by
  obtain ⟨node, processed, mem⟩ := sampleDispute_listed 160 (.inr rfl)
  refine ⟨sampleShared 160, node, ?_, processed, by decide +kernel, sampleDispute, mem,
    rfl, by decide +kernel, by unfold Over; decide +kernel, by decide, by decide, by decide +kernel⟩
  exact (ValidatorSets.follow_run sampleJoined_run _).block 192 (by decide +kernel)

end AliceNet.Layer1.DkgSchedule
