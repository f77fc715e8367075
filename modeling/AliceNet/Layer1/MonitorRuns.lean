import AliceNet.Layer1.Monitor
import AliceNet.Library.Replay

/-! Runs of the monitor in which calls fail. -/

namespace AliceNet.Layer1.Monitor

open Replay Option
open List hiding count

def Log.write : Log → Write Address PotentialValidator
  | .validatorJoined account tokenID => .put account ⟨account, tokenID % 2 ^ 64⟩
  | .validatorLeft account _ => .drop account
  | .validatorMinorSlashed account _ => .drop account
  | .validatorMajorSlashed account => .drop account
  | .other _ => .skip
  | .unregistered _ => .skip

private theorem deletePotentialValidator_ok (present : state account ≠ none) :
    deletePotentialValidator state account = .ok (Function.update state account none) := by
  obtain ⟨validator, found⟩ := ne_none_iff_exists'.mp present
  simp [deletePotentialValidator, found]

private theorem process_ok (fits : log.write.Fits state) :
    process state log = .ok (log.write.apply state) := by
  cases log with
  | validatorJoined account tokenID => rfl
  | validatorLeft account _ | validatorMinorSlashed account _ | validatorMajorSlashed account =>
    exact deletePotentialValidator_ok fits
  | other eventID | unregistered eventID => rfl

variable {config : Config} {chain : ℕ → List Log} {failure : Option Failure}

/-- The writes of the blocks behind `n` up to `m`. -/
def segment (chain : ℕ → List Log) (n m : ℕ) : List (Write Address PotentialValidator) :=
  (List.range' (n + 1) (m - n)).flatMap fun block => (chain block).map Log.write

def expected (chain : ℕ → List Log) (start block : ℕ) : PotentialValidators :=
  run (segment chain start block) fun _ => none

theorem segment_self (chain : ℕ → List Log) (n : ℕ) : segment chain n n = [] := by
  simp [segment]

variable {n m k start last block : ℕ} {f : Failure} {s : MonitorState}

theorem segment_append (first : n ≤ m) (second : m ≤ k) :
    segment chain n k = segment chain n m ++ segment chain m k := by
  obtain ⟨a, rfl⟩ := Nat.exists_eq_add_of_le first
  obtain ⟨b, rfl⟩ := Nat.exists_eq_add_of_le second
  have lengths : n + a + b - n = a + b := by omega
  have starts : n + a + 1 = n + 1 + a := by omega
  simp only [segment, lengths, starts, Nat.add_sub_cancel_left, ← flatMap_append, range'_append_1]

theorem segment_succ (chain : ℕ → List Log) (n : ℕ) :
    segment chain n (n + 1) = (chain (n + 1)).map Log.write := by
  simp [segment]

private theorem expected_append (first : start ≤ n) (second : n ≤ m) :
    expected chain start m = run (segment chain n m) (expected chain start n) := by
  rw [expected, segment_append first second, run_append]
  rfl

theorem Failure.hits_eq_some (hit : Failure.hits failure place log = some err) :
    ∃ f, failure = some f ∧ (f.block, f.index) = place ∧ f.error = err := by
  cases failure with
  | none => cases log <;> cases hit
  | some f =>
    by_cases same : (f.block, f.index) = place
    · refine ⟨f, rfl, same, ?_⟩
      cases log <;> simp_all [Failure.hits]
    · cases log <;> simp [Failure.hits, same] at hit

private theorem processEvents_ahead (failure : Option Failure) (block : ℕ) :
    ∀ (index : ℕ) {actual known : PotentialValidators},
      Ahead (logs.map Log.write ++ later) actual known →
      Fitting (logs.map Log.write) known →
      processEvents failure block index logs actual = (run (logs.map Log.write) actual,
        index + logs.length, none) ∨
      ∃ f, failure = some f ∧ f.block = block ∧ index ≤ f.index ∧ f.index < index + logs.length ∧
        processEvents failure block index logs actual =
          (run ((logs.take (f.index - index)).map Log.write) actual, f.index, some f.error) := by
  induction logs with
  | nil =>
    intro index actual known _ _
    exact .inl rfl
  | cons log rest ih =>
    intro index actual known ahead fitting
    cases hit : Failure.hits failure (block, index) log with
    | some err =>
      obtain ⟨f, failed, place, rfl⟩ := Failure.hits_eq_some hit
      obtain ⟨rfl, rfl⟩ := Prod.mk.inj place
      refine .inr ⟨f, failed, rfl, le_rfl, by simp, ?_⟩
      simp only [processEvents, hit, Nat.sub_self, take_zero]
      rfl
    | none =>
      have step : processEvents failure block index (log :: rest) actual =
          processEvents failure block (index + 1) rest (log.write.apply actual) := by
        simp only [processEvents, hit, process_ok (ahead.fits fitting.1)]
      rw [step]
      rcases ih (index + 1) (Ahead.step ahead) fitting.2 with
        done | ⟨f, failed, place, after, bound, stopped⟩
      · refine .inl (done.trans ?_)
        rw [length_cons, Nat.add_assoc, Nat.add_comm 1]
        rfl
      · refine .inr ⟨f, failed, place, by omega, by rw [length_cons]; omega, stopped.trans ?_⟩
        obtain ⟨k, position⟩ : ∃ k, f.index - index = k + 1 := ⟨f.index - (index + 1), by omega⟩
        have rest_position : f.index - (index + 1) = k := by omega
        rw [position, rest_position, take_succ_cons]
        rfl

/-- The table at the call that fails. -/
def reached (chain : ℕ → List Log) (n : ℕ) (f : Failure) :
    List (Write Address PotentialValidator) :=
  segment chain n (f.block - 1) ++ ((chain f.block).take f.index).map Log.write

/-- What is recorded when a call fails. -/
def Failure.recorded (f : Failure) : Except Error ℕ :=
  match f.error with
  | .deadlineExceeded => .ok (f.block - 1)
  | err => .error err

theorem processBlocks_ahead (failure : Option Failure) :
    ∀ {n : ℕ} {actual known : PotentialValidators}, n + k ≤ last →
    Ahead (segment chain n last) actual known →
      Fitting (segment chain n last) known →
      let batch := processBlocks failure n ((range' (n + 1) k).map chain) actual
      (batch.processed = .ok (n + k) ∧ batch.state = run (segment chain n (n + k)) actual) ∨
      ∃ f, failure = some f ∧ n < f.block ∧ f.block ≤ n + k ∧ f.index < (chain f.block).length ∧
        batch.processed = f.recorded ∧ batch.state = run (reached chain n f) actual := by
  induction k with
  | zero =>
    intro n actual known _ _ _
    refine .inl ⟨rfl, ?_⟩
    change actual = run (segment chain n n) actual
    rw [segment_self]
    rfl
  | succ k ih =>
    intro n actual known bound ahead fitting
    have split : segment chain n last = (chain (n + 1)).map Log.write ++
        segment chain (n + 1) last := by
      rw [segment_append (Nat.le_succ n) (show n + 1 ≤ last by omega), segment_succ]
    rw [split] at ahead fitting
    rw [Fitting.append] at fitting
    rw [range'_succ, map_cons]
    rcases processEvents_ahead failure (n + 1) 0 ahead fitting.1 with
      done | ⟨f, failed, place, _, inside, stopped⟩
    · simp only [processBlocks, done]
      have next : n + (k + 1) = n + 1 + k := by omega
      rw [next]
      rcases ih (by omega) ahead.run fitting.2 with
        ⟨processed, state⟩ | ⟨f, failed, above, below, inside, processed, state⟩
      · refine .inl ⟨processed, state.trans ?_⟩
        rw [segment_append (Nat.le_succ n) (Nat.le_add_right (n + 1) k), segment_succ, run_append]
      · refine .inr ⟨f, failed, by omega, below, inside, processed, state.trans ?_⟩
        rw [reached, reached, segment_append (Nat.le_succ n) (show n + 1 ≤ f.block - 1 by omega),
          segment_succ, append_assoc, run_append _ (_ ++ _)]
    · have reaches : reached chain n f = ((chain (n + 1)).take (f.index - 0)).map Log.write := by
        rw [reached, place, Nat.add_sub_cancel, segment_self, Nat.sub_zero, nil_append]
      refine .inr ⟨f, failed, by omega, by omega, by rw [place]; omega, ?_⟩
      rw [reaches]
      simp only [processBlocks, stopped, Failure.recorded]
      cases f.error with
      | deadlineExceeded => exact ⟨by rw [place], rfl⟩
      | notPresent => exact ⟨rfl, rfl⟩
      | failed => exact ⟨rfl, rfl⟩

private theorem processEvents_count :
    ∀ {index : ℕ} {state : PotentialValidators}, processEvents failure block index logs state =
      (state', count, none) →
      count = index + logs.length := by
  induction logs with
  | nil =>
    intro index state done
    exact (Prod.mk.inj (Prod.mk.inj done).2).1.symm
  | cons log rest ih =>
    intro index state done
    rw [processEvents] at done
    split at done
    · cases done
    · split at done
      · cases done
      · rw [ih done, length_cons]
        omega

private theorem mem_places (inside : index < count) : (block, index) ∈ places block count :=
  mem_map.mpr ⟨index, mem_range.mpr inside, rfl⟩

private theorem processBlocks_calls : ∀ {n : ℕ} {state : PotentialValidators} {recorded block : ℕ},
      (processBlocks failure n ((range' (n + 1) k).map chain) state).processed = .ok recorded →
      n < block → block ≤ recorded → ∀ index < (chain block).length,
        (block, index) ∈ (processBlocks failure n ((range' (n + 1) k).map chain) state).calls := by
  induction k with
  | zero =>
    intro n state recorded block done above below
    obtain rfl : n = recorded := Except.ok.inj done
    omega
  | succ k ih =>
    intro n state recorded block done above below index inside
    rw [range'_succ, map_cons] at done ⊢
    rcases result : processEvents failure (n + 1) 0 (chain (n + 1)) state with ⟨state', count, err⟩
    simp only [processBlocks, result] at done ⊢
    cases err with
    | none =>
      rw [mem_append]
      rcases Nat.lt_or_ge (n + 1) block with later | first
      · exact .inr (ih done later below index inside)
      · obtain rfl : block = n + 1 := by omega
        refine .inl (mem_places ?_)
        rw [processEvents_count result]
        omega
    | some err =>
      cases err with
      | deadlineExceeded =>
        obtain rfl : n = recorded := Except.ok.inj done
        omega
      | notPresent => cases done
      | failed => cases done

private theorem getLogsConcurrentWithSort_eq (chain : ℕ → List Log) (fetched : ℕ → Bool)
    (processed last : ℕ) :
    ∃ k ≤ last - processed,
      getLogsConcurrentWithSort chain fetched processed last =
        (range' (processed + 1) k).map chain := by
  obtain ⟨k, bound, cut, _⟩ := range'_eq_append_iff.mp
    (takeWhile_append_dropWhile (p := fetched)
      (l := range' (processed + 1) (last - processed))).symm
  exact ⟨k, bound, by rw [getLogsConcurrentWithSort, cut]⟩

theorem getLogsConcurrentWithSort_all (chain : ℕ → List Log)
    (all : ∀ block, fetched block = true) (processed last : ℕ) :
    getLogsConcurrentWithSort chain fetched processed last =
      (range' (processed + 1) (last - processed)).map chain := by
  rw [getLogsConcurrentWithSort, takeWhile_eq_self_iff.mpr fun block _ => all block]

theorem lastBlock_le (batchSize : ℕ) (behind : processed < finalized) :
    lastBlock batchSize processed finalized ≤ finalized := by
  unfold lastBlock
  split <;> omega

theorem monitorTick_cases (config : Config) (chain : ℕ → List Log) (s : MonitorState)
    (tick : Tick) :
    ((monitorTick config chain s tick).state.highestBlockProcessed = s.highestBlockProcessed ∧
      (monitorTick config chain s tick).state.potentialValidators = s.potentialValidators) ∨
    ∃ finalized k, tick.finalized = some finalized ∧ s.highestBlockProcessed + k ≤ finalized ∧
      let batch := processBlocks tick.failure s.highestBlockProcessed
        ((range' (s.highestBlockProcessed + 1) k).map chain) s.potentialValidators
      (monitorTick config chain s tick).state.potentialValidators = batch.state ∧
      (monitorTick config chain s tick).calls = batch.calls ∧
      (monitorTick config chain s tick).state.highestBlockProcessed =
        (match batch.processed with
          | .error _ => s.highestBlockProcessed
          | .ok processed => processed) := by
  unfold monitorTick
  dsimp only
  split
  · exact .inl ⟨rfl, rfl⟩
  split
  · exact .inl ⟨rfl, rfl⟩
  split
  · exact .inl ⟨rfl, rfl⟩
  rename_i finalized given
  split
  · exact .inl ⟨rfl, rfl⟩
  rename_i behind
  have processed : (recordEndpoint (checkSync s tick) tick finalized).highestBlockProcessed =
    s.highestBlockProcessed := rfl
  have validators : (recordEndpoint (checkSync s tick) tick finalized).potentialValidators =
    s.potentialValidators := rfl
  rw [processed] at behind
  rw [processed, validators]
  obtain ⟨k, bound, fetched⟩ :=
    getLogsConcurrentWithSort_eq chain tick.fetched s.highestBlockProcessed
    (lastBlock config.batchSize s.highestBlockProcessed finalized)
  have limit := lastBlock_le config.batchSize (not_le.mp behind)
  refine .inr ⟨finalized, k, given, by omega, ?_⟩
  rw [fetched]
  cases (processBlocks tick.failure s.highestBlockProcessed
    ((range' (s.highestBlockProcessed + 1) k).map chain) s.potentialValidators).processed with
  | error err => exact ⟨rfl, rfl, rfl⟩
  | ok recorded => exact ⟨rfl, rfl, rfl⟩

private theorem monitorTick_calls (config : Config) (chain : ℕ → List Log) (s : MonitorState)
    (tick : Tick) (above : s.highestBlockProcessed < block)
    (below : block ≤ (monitorTick config chain s tick).state.highestBlockProcessed) :
    ∀ index < (chain block).length, (block, index) ∈ (monitorTick config chain s tick).calls := by
  rcases monitorTick_cases config chain s tick with
    ⟨unmoved, _⟩ | ⟨finalized, k, _, _, _, calls, moved⟩
  · omega
  · rw [calls]
    rw [moved] at below
    split at below
    · omega
    · rename_i done
      exact processBlocks_calls done above below

def Safe (chain : ℕ → List Log) (start : ℕ) (s : MonitorState) (tick : Tick) : Prop :=
  ∀ f, tick.failure = some f → s.highestBlockProcessed < f.block →
    f.index < (chain f.block).length →
    ∀ account, expected chain start (f.recorded.toOption.getD s.highestBlockProcessed) account ≠
      none → run (reached chain start f) (fun _ => none) account ≠ none

structure Recoverable (chain : ℕ → List Log) (start last : ℕ) (s : MonitorState) : Prop where
  above : start ≤ s.highestBlockProcessed
  below : s.highestBlockProcessed ≤ last
  ahead : Ahead (segment chain s.highestBlockProcessed last) s.potentialValidators
    (expected chain start s.highestBlockProcessed)

theorem fitting_behind (fitting : Fitting (segment chain start last) fun _ => none)
    (above : start ≤ n) (below : n ≤ last) :
    Fitting (segment chain n last) (expected chain start n) := by
  rw [segment_append above below, Fitting.append] at fitting
  exact fitting.2

private theorem segment_reached (before : n < f.block) (within : f.block ≤ last) :
    segment chain n last =
      reached chain n f ++ (((chain f.block).drop f.index).map Log.write ++
        segment chain f.block last) := by
  obtain ⟨m, block⟩ : ∃ m, f.block = m + 1 := ⟨f.block - 1, by omega⟩
  rw [reached, segment_append (show n ≤ m by omega) (show m ≤ last by omega),
    segment_append (Nat.le_succ m) (show m + 1 ≤ last by omega), block, Nat.add_sub_cancel,
    segment_succ, append_assoc, ← append_assoc (map Log.write (take _ _)), ← map_append,
    take_append_drop]

private theorem run_reached (above : start ≤ n) (before : n < f.block) :
    run (reached chain start f) (fun _ => none) =
      run (reached chain n f) (expected chain start n) := by
  rw [reached, reached, segment_append above (show n ≤ f.block - 1 by omega), append_assoc,
    run_append]
  rfl

private theorem ahead_of_reached (above : start ≤ n)
    (before : n < f.block) (within : f.block ≤ last) (back : n ≤ m) (beforeToo : m < f.block)
    (ahead : Ahead (segment chain n last) actual (expected chain start n))
    (kept : ∀ account, expected chain start m account ≠ none →
      run (reached chain start f) (fun _ => none) account ≠ none) :
    Ahead (segment chain m last) (run (reached chain n f) actual) (expected chain start m) := by
  rw [segment_reached before within] at ahead
  have stopped := ahead.run
  rw [← run_reached above before, run_reached (above.trans back) beforeToo] at stopped
  rw [run_reached (above.trans back) beforeToo] at kept
  rw [segment_reached beforeToo within]
  exact stopped.rewind kept

theorem Recoverable.tick {tick : Tick} (recoverable : Recoverable chain start last s)
    (config : Config) (fitting : Fitting (segment chain start last) fun _ => none)
    (finalized : ∀ height, tick.finalized = some height → height ≤ last)
    (safe : Safe chain start s tick) :
    Recoverable chain start last (monitorTick config chain s tick).state := by
  obtain ⟨above, below, ahead⟩ := recoverable
  rcases monitorTick_cases config chain s tick with
    ⟨unmoved, same⟩ | ⟨height, k, given, bound, state, _, moved⟩
  · exact ⟨by rwa [unmoved], by rwa [unmoved], by rwa [unmoved, same]⟩
  have within := finalized height given
  rcases processBlocks_ahead tick.failure (bound.trans within) ahead
    (fitting_behind fitting above below) with
    ⟨processed, table⟩ | ⟨f, failed, before, inBatch, inside, processed, table⟩
  · have record : (monitorTick config chain s tick).state.highestBlockProcessed =
        s.highestBlockProcessed + k := by
      rw [moved, processed]
    refine ⟨by omega, by omega, ?_⟩
    rw [record, state, table, expected_append above (Nat.le_add_right _ k)]
    rw [segment_append (Nat.le_add_right _ k) (bound.trans within)] at ahead
    exact ahead.run
  · have record : (monitorTick config chain s tick).state.highestBlockProcessed =
        f.recorded.toOption.getD s.highestBlockProcessed := by
      rw [moved, processed]
      cases f.recorded <;> rfl
    have back : s.highestBlockProcessed ≤ f.recorded.toOption.getD s.highestBlockProcessed ∧
        f.recorded.toOption.getD s.highestBlockProcessed < f.block := by
      unfold Failure.recorded
      cases f.error with
      | deadlineExceeded => simp only [Except.toOption, getD_some]; omega
      | notPresent => exact ⟨le_rfl, before⟩
      | failed => exact ⟨le_rfl, before⟩
    refine ⟨by omega, by omega, ?_⟩
    rw [record, state, table]
    exact ahead_of_reached above before (by omega) back.1 back.2 ahead (safe f failed before inside)

/-- A tick in which nothing fails. -/
structure Clean (config : Config) (last : ℕ) (tick : Tick) : Prop where
  sync : tick.syncFails = false
  peers : config.endpointMinimumPeers ≤ tick.peerCount
  finalized : tick.finalized = some last
  fetched : ∀ block, tick.fetched block = true
  failure : tick.failure = none

theorem Clean.safe (clean : Clean config last tick) (chain : ℕ → List Log) (start : ℕ)
    (s : MonitorState) : Safe chain start s tick := by
  intro f failed
  rw [clean.failure] at failed
  cases failed

private theorem monitorTick_arrived (finalized : tick.finalized = some last)
    (arrived : last ≤ s.highestBlockProcessed) :
    (monitorTick config chain s tick).state.highestBlockProcessed = s.highestBlockProcessed := by
  rcases monitorTick_cases config chain s tick with
    ⟨unmoved, _⟩ | ⟨height, k, given, bound, _, _, moved⟩
  · exact unmoved
  · obtain rfl : last = height := some.inj (finalized.symm.trans given)
    obtain rfl : k = 0 := by omega
    exact moved

theorem Recoverable.clean {tick : Tick} (recoverable : Recoverable chain start last s)
    (fitting : Fitting (segment chain start last) fun _ => none) (clean : Clean config last tick)
    (behind : s.highestBlockProcessed < last) :
    (monitorTick config chain s tick).state.highestBlockProcessed =
      lastBlock config.batchSize s.highestBlockProcessed last := by
  obtain ⟨above, below, ahead⟩ := recoverable
  have limit := lastBlock_le config.batchSize behind
  have forward : s.highestBlockProcessed ≤ lastBlock config.batchSize s.highestBlockProcessed
      last := by
    unfold lastBlock
    split <;> omega
  have size : s.highestBlockProcessed +
      (lastBlock config.batchSize s.highestBlockProcessed last - s.highestBlockProcessed) =
      lastBlock config.batchSize s.highestBlockProcessed last := by omega
  rcases processBlocks_ahead tick.failure (size.trans_le limit) ahead
    (fitting_behind fitting above below) with ⟨processed, _⟩ | ⟨f, failed, _⟩
  · unfold monitorTick
    rw [if_neg (by simp [clean.sync]), if_neg (not_lt.mpr clean.peers), clean.finalized]
    dsimp only
    have same : (recordEndpoint (checkSync s tick) tick last).highestBlockProcessed =
      s.highestBlockProcessed := rfl
    have validators : (recordEndpoint (checkSync s tick) tick last).potentialValidators =
      s.potentialValidators := rfl
    rw [same, validators, if_neg (not_le.mpr behind),
      getLogsConcurrentWithSort_all chain clean.fetched, processed, size]
  · rw [clean.failure] at failed
    cases failed

def play (config : Config) (chain : ℕ → List Log) (s : MonitorState) (ticks : List Tick) :
    MonitorState :=
  ticks.foldl (fun s tick => (monitorTick config chain s tick).state) s

theorem Recoverable.catchUp (pos : 0 < config.batchSize)
    (fitting : Fitting (segment chain start last) fun _ => none) :
    ∀ {s : MonitorState}, Recoverable chain start last s →
      (∀ tick ∈ ticks, Clean config last tick) →
      last - s.highestBlockProcessed ≤ ticks.length →
      (play config chain s ticks).highestBlockProcessed = last ∧
        (play config chain s ticks).potentialValidators = expected chain start last := by
  induction ticks with
  | nil =>
    intro s recoverable _ enough
    have arrived : s.highestBlockProcessed = last := by
      have below := recoverable.below
      rw [length_nil] at enough
      omega
    have ahead := recoverable.ahead
    rw [arrived, segment_self] at ahead
    exact ⟨arrived, funext fun account => ahead.same account (by simp)⟩
  | cons tick rest ih =>
    intro s recoverable clean enough
    have first := clean tick mem_cons_self
    have next := recoverable.tick config fitting
      (fun height given => (some.inj (first.finalized.symm.trans given)).ge)
        (first.safe chain start s)
    refine ih next (fun tick mem => clean tick (mem_cons_of_mem _ mem)) ?_
    rw [length_cons] at enough
    rcases Nat.lt_or_ge s.highestBlockProcessed last with behind | arrived
    · rw [recoverable.clean fitting first behind]
      unfold lastBlock
      split <;> omega
    · rw [monitorTick_arrived first.finalized arrived]
      omega

/-- Anything may fail, but not after a validator was removed that is still recorded. -/
inductive Run (config : Config) (chain : ℕ → List Log) (start last : ℕ) : MonitorState → Prop
  | start : Run config chain start last (newMonitorState start)
  | tick {s : MonitorState} (tick : Tick) : Run config chain start last s →
      (∀ height, tick.finalized = some height → height ≤ last) → Safe chain start s tick →
      Run config chain start last (monitorTick config chain s tick).state

theorem Run.recoverable (run : Run config chain start last s) (ordered : start ≤ last)
    (fitting : Fitting (segment chain start last) fun _ => none) :
    Recoverable chain start last s := by
  induction run with
  | start =>
    refine ⟨le_rfl, ordered, ?_⟩
    rw [expected, show (newMonitorState start).highestBlockProcessed = start from rfl, segment_self]
    exact Ahead.refl _ _
  | tick tick _ finalized safe ih => exact ih.tick config fitting finalized safe

/-- The blocks behind the start, with logs in which a validator leaves or is slashed only while it
is in the pool. No tick moves the record past a block of which a log was not processed, and as soon
as nothing fails any more the monitor reaches the last block, with the potential validators that
every log gives when it is processed once and in order. -/
theorem Run.logs_survive {start blocks : ℕ} {s : MonitorState}
    (run : Run config chain start (start + blocks) s) (pos : 0 < config.batchSize)
    (fitting : Fitting (segment chain start (start + blocks)) fun _ => none) :
    (∀ tick block, s.highestBlockProcessed < block →
      block ≤ (monitorTick config chain s tick).state.highestBlockProcessed →
      ∀ index < (chain block).length, (block, index) ∈ (monitorTick config chain s tick).calls) ∧
    ∀ ticks : List Tick, (∀ tick ∈ ticks, Clean config (start + blocks) tick) →
      start + blocks - s.highestBlockProcessed ≤ ticks.length →
      (play config chain s ticks).highestBlockProcessed = start + blocks ∧
        (play config chain s ticks).potentialValidators =
          expected chain start (start + blocks) := by
  have recoverable := run.recoverable (Nat.le_add_right start blocks) fitting
  refine ⟨fun tick block above below => monitorTick_calls config chain s tick above below, ?_⟩
  intro ticks clean enough
  exact recoverable.catchUp pos fitting clean enough

/-! A validator joins and leaves, and behind that another processor fails once. -/

def sampleConfig : Config := ⟨0, 10⟩

def sampleChain : ℕ → List Log
  | 1 => [.validatorJoined 7 1]
  | 2 => [.validatorLeft 7 2, .other 0]
  | _ => []

def sampleTick (last : ℕ) (failure : Option Failure) : Tick :=
    ⟨true, 0, false, some last, fun _ => true, failure⟩

theorem sampleChain_fitting : Fitting (segment sampleChain 0 (0 + 2)) fun _ => none := by
  refine ⟨trivial, ?_, trivial, trivial⟩
  exact (by decide : (Function.update (fun _ => none) 7 (some ⟨7, 1⟩) : PotentialValidators) 7 ≠
    none)

private theorem sampleTick_clean : Clean sampleConfig 2 (sampleTick 2 none) :=
    ⟨rfl, le_rfl, rfl, fun _ => rfl, rfl⟩

/-- The processor fails while the validator is still there. -/
theorem Run.logs_survive_sample :
    (play sampleConfig sampleChain (newMonitorState 0)
      [sampleTick 2 (some ⟨2, 0, .failed⟩), sampleTick 2 none,
        sampleTick 2 none]).highestBlockProcessed = 2 := by
  have safe : Safe sampleChain 0 (newMonitorState 0) (sampleTick 2 (some ⟨2, 0, .failed⟩)) := by
    intro f failed _ _ account found
    obtain rfl : f = ⟨2, 0, .failed⟩ := (some.inj failed).symm
    exact absurd rfl found
  have run : Run sampleConfig sampleChain 0 (0 + 2) _ :=
    Run.tick _ Run.start (fun height given => (some.inj given).ge) safe
  exact ((run.logs_survive (by decide) sampleChain_fitting).2 [sampleTick 2 none, sampleTick 2 none]
    (by simp [sampleTick_clean]) (by decide)).1

private theorem sampleChain_stuck (clean : Clean sampleConfig 2 tick)
    (processed : s.highestBlockProcessed = 1) (gone : s.potentialValidators 7 = none) :
    (monitorTick sampleConfig sampleChain s tick).state.highestBlockProcessed = 1 ∧
      (monitorTick sampleConfig sampleChain s tick).state.potentialValidators 7 = none := by
  have stopped : processBlocks tick.failure 1 ((range' 2 1).map sampleChain) s.potentialValidators =
      ⟨s.potentialValidators, [], .error .notPresent⟩ := by
    have missing : deletePotentialValidator s.potentialValidators 7 = .error .notPresent := by
      simp only [deletePotentialValidator, gone]
    rw [clean.failure]
    change processBlocks none 1 [[.validatorLeft 7 2, .other 0]] s.potentialValidators = _
    simp only [processBlocks, processEvents, Failure.hits, process, missing]
    rfl
  have fetched := getLogsConcurrentWithSort_all sampleChain clean.fetched 1 2
  unfold monitorTick
  rw [if_neg (by simp [clean.sync]), if_neg (not_lt.mpr clean.peers), clean.finalized]
  dsimp only
  have same : (recordEndpoint (checkSync s tick) tick 2).highestBlockProcessed = 1 := processed
  have validators : (recordEndpoint (checkSync s tick) tick 2).potentialValidators =
    s.potentialValidators := rfl
  rw [same, validators, if_neg (by decide), show lastBlock sampleConfig.batchSize 1 2 = 2 from rfl,
    fetched, stopped]
  exact ⟨rfl, gone⟩

/-- It fails behind the removal: the validator is gone, its removal cannot be processed again, and
the monitor stays where it is for ever. -/
theorem removal_not_replayed :
    Fitting (segment sampleChain 0 (0 + 2)) (fun _ => none) ∧
    ∀ ticks : List Tick, (∀ tick ∈ ticks, Clean sampleConfig 2 tick) →
      (play sampleConfig sampleChain (newMonitorState 0)
        (sampleTick 1 none :: sampleTick 2 (some ⟨2, 1, .failed⟩) :: ticks)).highestBlockProcessed =
          1 := by
  refine ⟨sampleChain_fitting, ?_⟩
  have stuck : ∀ (ticks : List Tick) (s : MonitorState),
      (∀ tick ∈ ticks, Clean sampleConfig 2 tick) →
      s.highestBlockProcessed = 1 → s.potentialValidators 7 = none →
      (play sampleConfig sampleChain s ticks).highestBlockProcessed = 1 := by
    intro ticks
    induction ticks with
    | nil => exact fun s _ processed _ => processed
    | cons tick rest ih =>
      intro s clean processed gone
      have next := sampleChain_stuck (clean tick mem_cons_self) processed gone
      exact ih _ (fun tick mem => clean tick (mem_cons_of_mem _ mem)) next.1 next.2
  intro ticks clean
  exact stuck ticks _ clean (by decide) (by decide)

end AliceNet.Layer1.Monitor
