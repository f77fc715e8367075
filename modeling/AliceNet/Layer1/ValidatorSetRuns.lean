import AliceNet.Layer1.ValidatorSets
import AliceNet.Bridge.EthdkgRounds

/-! A node that follows the events of the key generation. -/

namespace AliceNet.Layer1.ValidatorSets

open Outcome Option
open Crypto (Curve Point Twist)
open Bridge.Ethdkg
open Function
open List hiding next

/-- The index that the event adds to the members of an epoch -/
def addedIndex (key : ℕ) : Event → Option ℕ
  | .ValidatorMemberAdded _ index _ epoch _ => if epoch % 2 ^ 32 = key then
      some (index % 2 ^ 32) else none
  | _ => none

/-- All indices that were ever added to the members of an epoch -/
def addedIndices (key : ℕ) (events : List Event) : List ℕ := events.filterMap (addedIndex key)

def memberOf (w : World) (account : Address) : Validator :=
  ⟨account, (w.participant account).index % 2 ^ 8, some (w.participant account).gpkj⟩

/-- What the node knows of a round that was opened -/
structure Follows (w : World) (d : DkgState) : Prop where
  nonce : d.nonce = w.dkg.nonce
  opened : ∃ start phaseLength confirmationLength,
    Event.RegistrationOpened start d.numberOfValidators w.dkg.nonce phaseLength confirmationLength ∈
      w.events
  registered : ∀ account, w.dkg.participating account → d.participants account ≠ none
  unsubmitted : ∀ account, w.dkg.participating account → (w.participant account).phase ≠
    .GPKJSubmission → d.participants account = some none
  count : ¬ Over w.dkg w.number → d.numberOfValidators = w.validators.card + w.slashed.card ∧
    Disjoint w.slashed w.validators

/-- The node has processed all events so far. -/
structure Tracks (w : World) (node : Node) : Prop where
  potential : node.potentialValidators = w.validators
  dkg : w.dkg.nonce ≠ 0 → ∃ d, node.dkgState = some d ∧ Follows w d
  placed : w.dkg.ethdkgPhase ≠ .Completion → ∀ account, w.dkg.participating account →
    (w.participant account).phase = .GPKJSubmission →
      0 < (w.participant account).index ∧
      ((node.validators (w.epoch % 2 ^ 32)).getD [])[(w.participant account).index - 1]? =
        some (memberOf w account)
  bounded : ∀ account, w.dkg.participating account → (w.participant account).index < 2 ^ 32
  length : ∀ key, ((node.validators key).getD []).length = (addedIndices key w.events).foldr max 0
  quiet : w.dkg.nonce ≠ 0 → w.dkg.ethdkgPhase ≠ .Completion → w.isConsensusRunning = false

theorem processAll_append_ok :
    processAll generated node (events ++ more) = .ok node' ↔
      ∃ middle, processAll generated node events = .ok middle ∧ processAll generated middle more =
        .ok node' := by
  rw [processAll, foldlM_append, bind_ok_iff]
  rfl

theorem addedIndices_append (key : ℕ) (events more : List Event) :
    addedIndices key (events ++ more) = addedIndices key events ++ addedIndices key more :=
  filterMap_append

theorem addedIndices_ignored (ignored : addedIndex key event = none) (events : List Event) :
    addedIndices key (events ++ [event]) = addedIndices key events := by
  rw [addedIndices_append, addedIndices, addedIndices, filterMap_cons_none ignored, filterMap_nil,
    append_nil]

section

variable {generated : ℕ → Option Twist} {curve : Curve} {w w' v : World} {node : Node}

structure SameEntries (w w' : World) : Prop where
  nonce : w'.dkg.nonce = w.dkg.nonce
  nonces : ∀ account, (w'.participant account).nonce = (w.participant account).nonce
  indices : ∀ account, (w'.participant account).index = (w.participant account).index
  phases : ∀ account, (w'.participant account).phase = .GPKJSubmission ↔
    (w.participant account).phase = .GPKJSubmission
  gpkjs : ∀ account, (w.participant account).phase = .GPKJSubmission →
    (w'.participant account).gpkj = (w.participant account).gpkj
  epoch : w'.epoch = w.epoch
  stopped : w.isConsensusRunning = false → w'.isConsensusRunning = false

/-- And the same validators -/
structure SameMembers (w w' : World) : Prop extends SameEntries w w' where
  validators : w'.validators = w.validators
  slashed : w'.slashed = w.slashed

theorem SameEntries.participating (same : SameEntries w w') (account : Address) :
    w'.dkg.participating account ↔ w.dkg.participating account := by
  have nonces := same.nonces account
  rw [Storage.participating, Storage.participating, same.nonce, nonces]

theorem SameMembers.advanced (w : World) (next : Phase) (phaseStartBlock : ℕ) :
    SameMembers w (w.advanced next phaseStartBlock) :=
  ⟨⟨rfl, fun _ => rfl, fun _ => rfl, fun _ => Iff.rfl, fun _ _ => rfl, rfl, id⟩, rfl, rfl⟩

theorem SameMembers.closed (closed : Closed w next numParticipants event w') :
    SameMembers w w' := by
  cases closed with
  | stays _ | advances _ _ _ =>
    exact ⟨⟨rfl, fun _ => rfl, fun _ => rfl, fun _ => Iff.rfl, fun _ _ => rfl, rfl, id⟩, rfl, rfl⟩

theorem SameMembers.trans (first : SameMembers w v) (second : SameMembers v w') :
    SameMembers w w' where
  nonce := second.nonce.trans first.nonce
  nonces account := (second.nonces account).trans (first.nonces account)
  indices account := (second.indices account).trans (first.indices account)
  phases account := (second.phases account).trans (first.phases account)
  gpkjs account submitted :=
    (second.gpkjs account ((first.phases account).mpr submitted)).trans
      (first.gpkjs account submitted)
  validators := second.validators.trans first.validators
  slashed := second.slashed.trans first.slashed
  epoch := second.epoch.trans first.epoch
  stopped running := second.stopped (first.stopped running)

theorem SameMembers.submits (w : World) (account : Address) (participant : Participant)
    (mpkG1 : Point) (event : Event) (nonce : participant.nonce = (w.participant account).nonce)
    (index : participant.index = (w.participant account).index)
    (before : (w.participant account).phase ≠ .GPKJSubmission)
    (after : participant.phase ≠ .GPKJSubmission) :
    SameMembers w (((w.setParticipant account participant).keyed mpkG1).emit event) := by
  have cases : ∀ other, other = account ∧
      (((w.setParticipant account participant).keyed mpkG1).emit event).participant other =
        participant ∨
      (((w.setParticipant account participant).keyed mpkG1).emit event).participant other =
          w.participant other := by
    intro other
    by_cases same : other = account
    · subst same
      exact .inl ⟨rfl, update_self _ _ _⟩
    · exact .inr (update_of_ne same _ _)
  refine ⟨⟨rfl, ?_, ?_, ?_, ?_, rfl, id⟩, rfl, rfl⟩
  · intro other
    rcases cases other with ⟨rfl, found⟩ | found <;> rw [found]
    exact nonce
  · intro other
    rcases cases other with ⟨rfl, found⟩ | found <;> rw [found]
    exact index
  · intro other
    rcases cases other with ⟨rfl, found⟩ | found <;> rw [found]
    exact ⟨fun done => (after done).elim, fun done => (before done).elim⟩
  · intro other done
    rcases cases other with ⟨rfl, found⟩ | found
    · exact (before done).elim
    · rw [found]

/-- The round and the members that the node knows are the same. -/
structure Keeps (node node' : Node) : Prop where
  dkgState : node'.dkgState = node.dkgState
  validators : node'.validators = node.validators

theorem Keeps.refl : Keeps node node := ⟨rfl, rfl⟩

/-- The node can process what the step has reported. -/
def Advances (generated : ℕ → Option Twist) (w w' : World) (node : Node) : Prop :=
  ∃ more node', w'.events = w.events ++ more ∧ processAll generated node more = .ok node' ∧
    Tracks w' node'

theorem Closed.events (closed : Closed v next numParticipants event w') :
    w'.events = v.events ∨ w'.events = v.events ++ [event] := by
  cases closed with
  | stays _ => exact .inl rfl
  | advances _ _ _ => exact .inr rfl

/-- The node has nothing to do with the event. -/
def Passed (event : Event) : Prop :=
  (∀ key, addedIndex key event = none) ∧ ∀ generated node, process generated node event = .ok node

private theorem processAll_passed (passed : ∀ event ∈ events, Passed event) (node : Node) :
    processAll generated node events = .ok node := by
  induction events with
  | nil => rfl
  | cons event rest ih =>
    rw [forall_mem_cons] at passed
    rw [processAll, foldlM_cons, passed.1.2]
    exact ih passed.2

theorem addedIndices_passed (passed : ∀ event ∈ events, Passed event) (key : ℕ) :
    addedIndices key events = [] :=
  filterMap_eq_nil_iff.mpr fun event mem => (passed event mem).1 key

section

variable (tracks : Tracks w node)

include tracks

theorem Tracks.frame (same : SameEntries w w') (events : w'.events = w.events ++ more)
    (ignored : ∀ key, addedIndices key more = []) (unfinished : w.dkg.ethdkgPhase ≠ .Completion)
    (count : ∀ d, Follows w d → d.numberOfValidators = w'.validators.card + w'.slashed.card ∧
      Disjoint w'.slashed w'.validators)
    (kept : Keeps node node') (potential : node'.potentialValidators = w'.validators) :
    Tracks w' node' where
  potential := potential
  dkg := by
    intro enrolled
    rw [same.nonce] at enrolled
    obtain ⟨d, found, follows⟩ := tracks.dkg enrolled
    refine ⟨d, kept.dkgState.trans found, follows.nonce.trans same.nonce.symm, ?_, ?_, ?_, ?_⟩
    · obtain ⟨start, phaseLength, confirmationLength, mem⟩ := follows.opened
      refine ⟨start, phaseLength, confirmationLength, ?_⟩
      rw [events, same.nonce]
      exact mem_append_left _ mem
    · intro account participating
      exact follows.registered account ((same.participating account).mp participating)
    · intro account participating earlier
      refine follows.unsubmitted account ((same.participating account).mp participating) ?_
      rwa [Ne, ← same.phases account]
    · exact fun _ => count d follows
  placed := by
    intro _ account participating submitted
    rw [same.participating] at participating
    rw [same.phases] at submitted
    have place := tracks.placed unfinished account participating submitted
    rwa [same.epoch, memberOf, same.indices account, same.gpkjs account submitted, kept.validators]
  bounded := by
    intro account participating
    rw [same.participating] at participating
    rw [same.indices]
    exact tracks.bounded account participating
  length := by
    intro key
    rw [events, addedIndices_append, ignored, append_nil, kept.validators]
    exact tracks.length key
  quiet := by
    intro enrolled _
    rw [same.nonce] at enrolled
    exact same.stopped (tracks.quiet enrolled unfinished)

theorem Tracks.frame_same (same : SameMembers w w') (events : w'.events = w.events ++ more)
    (ignored : ∀ key, addedIndices key more = []) (alive : ¬ Over w.dkg w.number) :
    Tracks w' node := by
  refine tracks.frame same.toSameEntries events ignored (unfinished_of_not_over alive) ?_ .refl
    (tracks.potential.trans same.validators.symm)
  intro d follows
  rw [same.validators, same.slashed]
  exact follows.count alive

theorem Tracks.pass (more : List Event) (same : SameMembers w w')
    (events : w'.events = w.events ++ more) (passed : ∀ event ∈ more, Passed event)
    (alive : ¬ Over w.dkg w.number) : Advances generated w w' node :=
  ⟨more, node, events, processAll_passed passed node,
    tracks.frame_same same events (addedIndices_passed passed) alive⟩

theorem Tracks.passClosed (same : SameMembers w (v.emit event))
    (before : v.events = w.events) (closed : Closed (v.emit event) next numParticipants last w')
    (passed : Passed event) (passedLast : Passed last) (alive : ¬ Over w.dkg w.number) :
    Advances generated w w' node := by
  have emitted : (v.emit event).events = w.events ++ [event] := by rw [World.emit, before]
  have together := same.trans (.closed closed)
  rcases Closed.events closed with stays | appended
  · exact tracks.pass [event] together (stays.trans emitted) (by simpa using passed) alive
  · refine tracks.pass [event, last] together ?_ (by simp [passed, passedLast]) alive
    rw [appended, emitted, append_assoc]
    rfl

end

section

variable {members : List Address} (tracks : Tracks w node) (inv : w.Inv curve members)

include tracks inv

theorem Tracks.distributeShares
    (ran : Bridge.Ethdkg.distributeShares curve w msg encryptedShares commitments = .ok w') :
    Advances generated w w' node := by
  obtain ⟨participant, _, window, _, phase, shape, closed⟩ := distributeShares_ok ran
  have alive := inv.alive window (inv.enrolled_of window.current (by simp)) (by simp)
  exact tracks.passClosed (.submits w msg.sender participant w.dkg.mpkG1 _ (by rw [shape])
    (by rw [shape]) (by simp [phase]) (by simp [shape])) rfl closed ⟨fun _ => rfl, fun _ _ =>
    rfl⟩ ⟨fun _ => rfl, fun _ _ => rfl⟩ alive

theorem Tracks.submitKeyShare
    (ran : Bridge.Ethdkg.submitKeyShare curve w msg keyShareG1 proof keyShareG2 = .ok w') :
    Advances generated w w' node := by
  obtain ⟨v, mpkG1, participant, _, opens, _, phase, shape, _, closed⟩ := submitKeyShare_ok ran
  have submits :=
    SameMembers.submits v msg.sender participant mpkG1
    (.KeyShareSubmitted msg.sender participant.index
    participant.nonce keyShareG1 proof keyShareG2) (by rw [shape]) (by rw [shape]) (by simp [phase])
      (by simp [shape])
  cases opens with
  | already window =>
    have alive := inv.alive window (inv.enrolled_of window.current (by simp)) (by simp)
    exact tracks.passClosed submits rfl closed ⟨fun _ => rfl, fun _ _ => rfl⟩ ⟨fun _ =>
      rfl, fun _ _ => rfl⟩ alive
  | opens window undisputed =>
    have enrolled := inv.enrolled_of window.current (by simp)
    have alive := window.not_over (inv.started_of enrolled (window.inTime.trans window.bounded))
      (by simp) (fun _ => undisputed)
    exact tracks.passClosed ((SameMembers.advanced w _ _).trans submits) rfl closed ⟨fun _ =>
      rfl, fun _ _ => rfl⟩ ⟨fun _ => rfl, fun _ _ => rfl⟩ alive

theorem Tracks.submitMasterPublicKey
    (msg : Msg) (ran : Bridge.Ethdkg.submitMasterPublicKey curve w msg masterPublicKey = .ok w') :
    Advances generated w w' node := by
  obtain ⟨masterPublicKeyHash, window, rfl⟩ := submitMasterPublicKey_ok msg ran
  have alive := inv.alive window (inv.enrolled_of window.current (by simp)) (by simp)
  refine tracks.pass [.MPKSet w.number w.dkg.nonce masterPublicKey]
    ⟨⟨rfl, fun _ => rfl, fun _ => rfl, fun _ => Iff.rfl, fun _ _ => rfl, rfl, id⟩, rfl, rfl⟩ rfl ?_
      alive
  simp only [mem_singleton, forall_eq]
  exact ⟨fun _ => rfl, fun _ _ => rfl⟩

end

theorem Tracks.close (closed : Closed (v.emit event) next numParticipants last w')
    (tracks : Tracks (v.emit event) node') (before : v.events = w.events)
    (processed : process generated node event = .ok node') (passed : Passed last)
    (alive : ¬ Over v.dkg v.number) : Advances generated w w' node := by
  have emitted : (v.emit event).events = w.events ++ [event] := by rw [World.emit, before]
  rcases Closed.events closed with stays | appended
  · refine ⟨[event], node', stays.trans emitted, ?_,
      tracks.frame_same (.closed closed) (by rw [stays, append_nil])
      (fun _ => rfl) alive⟩
    simp [processAll, processed, bind, Except.bind, pure, Except.pure]
  · refine ⟨[event, last], node', by rw [appended, emitted, append_assoc]; rfl, ?_,
      tracks.frame_same (.closed closed) appended (addedIndices_passed (by simpa using passed))
        alive⟩
    simp [processAll, processed, passed.2, bind, Except.bind, pure, Except.pure]

/-- One participant has a new entry, which an event reports. -/
def recorded (w : World) (account : Address) (participant : Participant) (event : Event) : World :=
  (w.setParticipant account participant).emit event

theorem recorded_self (w : World) (account : Address) (participant : Participant) (event : Event) :
    (recorded w account participant event).participant account = participant :=
  update_self _ _ _

theorem recorded_of_ne (w : World) (different : other ≠ account) (participant : Participant)
    (event : Event) :
    (recorded w account participant event).participant other = w.participant other :=
  update_of_ne different _ _

theorem recorded_participating (different : other ≠ account) :
    (recorded w account participant event).dkg.participating other ↔ w.dkg.participating other := by
  have nonce := congrArg Participant.nonce (recorded_of_ne w different participant event)
  rw [Storage.participating, Storage.participating, nonce]
  rfl

theorem Follows.update (follows : Follows w d) (alive : ¬ Over w.dkg w.number) (account : Address)
    (participant : Participant) (event : Event) (known : Option Twist)
    (unsubmitted : participant.phase ≠ .GPKJSubmission → known = none) :
    Follows (recorded w account participant event)
      { d with participants := update d.participants account (some known) } where
  nonce := follows.nonce
  opened := by
    obtain ⟨start, phaseLength, confirmationLength, mem⟩ := follows.opened
    exact ⟨start, phaseLength, confirmationLength, mem_append_left _ mem⟩
  registered := by
    intro other participating
    by_cases same : other = account
    · simp [same]
    · simpa [same] using follows.registered other ((recorded_participating same).mp participating)
  unsubmitted := by
    intro other participating earlier
    by_cases same : other = account
    · subst same
      rw [recorded_self] at earlier
      simp [unsubmitted earlier]
    · rw [recorded_of_ne w same] at earlier
      simpa [same] using follows.unsubmitted other ((recorded_participating same).mp participating)
        earlier
  count _ := follows.count alive

private theorem foldr_max_append (items : List ℕ) (item : ℕ) :
    (items ++ [item]).foldr max 0 = max (items.foldr max 0) item := by
  induction items with
  | nil => simp
  | cons first rest ih => simp [ih, max_assoc]

private theorem placeMember_ok (members : List Validator) (pos : 0 < index)
    (bounded : index < 2 ^ 32) (v : Validator) :
    ∃ placed, placeMember members index v = .ok placed ∧ placed.length = max members.length index ∧
      placed[index - 1]? = some v ∧ ∀ i, i ≠ index - 1 → ∀ other, members[i]? = some other →
        placed[i]? = some other := by
  have place : (index + (2 ^ 32 - 1)) % 2 ^ 32 = index - 1 := by omega
  have length : (members ++ replicate (index - members.length) (⟨0, 0, none⟩ : Validator)).length =
      max members.length index := by
    rw [length_append, length_replicate]
    omega
  have inside : index - 1 <
      (members ++ replicate (index - members.length) (⟨0, 0, none⟩ : Validator)).length := by
    omega
  refine ⟨(members ++ replicate (index - members.length) (⟨0, 0, none⟩ : Validator)).set (index - 1)
    v, ?_, ?_, ?_, ?_⟩
  · simp only [placeMember, place]
    rw [require_of inside]
    rfl
  · rw [length_set, length]
  · rw [getElem?_set_self inside]
  · intro i different other found
    rw [getElem?_set_ne different.symm]
    exact getElem?_append_left (List.getElem?_eq_some_iff.mp found).1 ▸ found

/-- The bytes that a share is given to the consensus in -/
def shareBytes (words : Twist) : Bytes := if words.1 = 0 then List.replicate 128 0 else
    encodeTwist words

theorem marshalG2Big_some (words : Twist) : marshalG2Big (some words) = .ok (shareBytes words) := by
  unfold marshalG2Big shareBytes
  by_cases zero : words.1 = 0 <;> simp [zero]

/-- The node's own shares are the ones that it has generated. -/
def Honest (generated : ℕ → Option Twist) (own : Address) (events : List Event) : Prop :=
  ∀ index nonce epoch share, Event.ValidatorMemberAdded own index nonce epoch share ∈ events →
    ∀ mine, generated nonce = some mine → mine = share

theorem sanityCheck_ok (known : d.participants account = some none)
    (honest : account = node.account → ∀ mine, generated d.nonce = some mine → mine = share) :
    sanityCheck generated node d account share = .ok () := by
  unfold sanityCheck
  split
  · rename_i own
    rw [known]
    cases stored : generated d.nonce with
    | none => simp
    | some mine => simp [require, honest own mine stored]
  · rfl

private theorem onGPKjSubmitted_ok (known : d.participants account = some none) :
    onGPKjSubmitted d account share =
    .ok { d with participants := update d.participants account (some (some share)) } := by
  rw [onGPKjSubmitted, require_of (by simp [known])]
  rfl

private theorem processValidatorMemberAdded_ok (found : node.dkgState = some d)
    (checked : sanityCheck generated node d account share = .ok ())
    (known : d.participants account = some none)
    (small : index < 2 ^ 32)
    (place : placeMember ((node.validators (epoch % 2 ^ 32)).getD []) index ⟨account, index % 2 ^ 8,
    some share⟩ =
      .ok placed) :
    processValidatorMemberAdded generated node account index epoch share = .ok { node with
      dkgState := some { d with participants := update d.participants account (some (some share)) }
      validators := update node.validators (epoch % 2 ^ 32) (some placed) } := by
  have wide : index % 2 ^ 32 = index := Nat.mod_eq_of_lt small
  have state : getDkgState node = .ok d := by rw [getDkgState, found]
  rw [processValidatorMemberAdded, state]
  refine bind_ok_iff.mpr ⟨d, rfl,
    bind_ok_iff.mpr ⟨(), checked, bind_ok_iff.mpr ⟨_, onGPKjSubmitted_ok known, ?_⟩⟩⟩
  rw [wide, place]
  exact bind_ok_iff.mpr ⟨placed, rfl, bind_ok_iff.mpr ⟨_, marshalG2Big_some share, rfl⟩⟩

private theorem process_evicted (reports : event.evicted = some account)
    (present : account ∈ node.potentialValidators) :
    process generated node event =
      .ok { node with potentialValidators := node.potentialValidators.erase account } := by
  cases event with
  | ValidatorMajorSlashed other | ValidatorMinorSlashed other =>
    obtain rfl : other = account := some.inj reports
    simp only [process, deletePotentialValidator, require_of present]
    rfl
  | _ => cases reports

theorem processValidatorSetCompleted_ok
    (ran : processValidatorSetCompleted node validatorCount epoch aliceNetHeight groupKey =
      .ok node') : Keeps node node' ∧ node'.potentialValidators = node.potentialValidators := by
  simp only [processValidatorSetCompleted, checkValidatorSet, bind_ok_iff] at ran
  obtain ⟨_, _, ran⟩ := ran
  split at ran
  · simp only [ok_iff] at ran
    obtain ⟨_, _, _, _, _, _, rfl⟩ := ran
    exact ⟨⟨rfl, rfl⟩, rfl⟩
  · rw [pure_ok_iff] at ran
    subst ran
    exact ⟨⟨rfl, rfl⟩, rfl⟩

private theorem processAll_evictions
    (kinds : ∀ event ∈ reported, event.evicted ≠ none ∨ event.pauses = true)
    (ran : processAll generated node reported = .ok node') :
    Keeps node node' ∧ node'.potentialValidators =
      node.potentialValidators \ (reported.filterMap Event.evicted).toFinset := by
  induction reported generalizing node with
  | nil =>
    obtain rfl := pure_ok_iff.mp ran
    exact ⟨.refl, by simp⟩
  | cons event rest ih =>
    rw [forall_mem_cons] at kinds
    rw [processAll, foldlM_cons, bind_ok_iff] at ran
    obtain ⟨middle, first, others⟩ := ran
    obtain ⟨kept, left⟩ := ih kinds.2 others
    cases event with
    | ValidatorMajorSlashed account | ValidatorMinorSlashed account =>
      simp only [process, deletePotentialValidator, ok_iff] at first
      obtain ⟨_, _, rfl⟩ := first
      refine ⟨⟨kept.dkgState, kept.validators⟩, left.trans ?_⟩
      show node.potentialValidators.erase account \ _ =
        node.potentialValidators \ (account :: rest.filterMap Event.evicted).toFinset
      rw [toFinset_cons, Finset.sdiff_insert, Finset.erase_sdiff_comm]
    | ValidatorSetCompleted =>
      obtain ⟨same, potential⟩ := processValidatorSetCompleted_ok first
      refine ⟨⟨kept.dkgState.trans same.dkgState, kept.validators.trans same.validators⟩, ?_⟩
      rw [left, potential, filterMap_cons_none rfl]
    | _ => simp [Event.evicted, Event.pauses] at kinds

theorem processes_evictions (evictions : ∀ event ∈ reported, event.evicted ≠ none)
    (nodup : (reported.filterMap Event.evicted).Nodup)
    (present : ∀ account ∈ reported.filterMap Event.evicted, account ∈ node.potentialValidators) :
    ∃ node', processAll generated node reported = .ok node' := by
  induction reported generalizing node with
  | nil => exact ⟨node, rfl⟩
  | cons event rest ih =>
    rw [forall_mem_cons] at evictions
    obtain ⟨account, reports⟩ := Option.ne_none_iff_exists'.mp evictions.1
    rw [filterMap_cons_some reports, nodup_cons] at nodup
    rw [filterMap_cons_some reports, forall_mem_cons] at present
    rw [processAll, foldlM_cons, process_evicted reports present.1]
    refine ih evictions.2 nodup.2 ?_
    intro other mem
    refine Finset.mem_erase.mpr ⟨?_, present.2 other mem⟩
    rintro rfl
    exact nodup.1 mem

private theorem addedIndices_evictions
    (kinds : ∀ event ∈ reported, event.evicted ≠ none ∨ event.pauses = true) (key : ℕ) :
    addedIndices key reported = [] := by
  refine filterMap_eq_nil_iff.mpr ?_
  intro event mem
  have kind := kinds event mem
  cases event with
  | ValidatorMemberAdded => simp [Event.evicted, Event.pauses] at kind
  | _ => rfl

section

variable (tracks : Tracks w node)

include tracks

theorem Tracks.record (enrolled : w.dkg.nonce ≠ 0)
    (alive : ¬ Over w.dkg w.number) (account : Address)
    (participant : Participant) (event : Event) (known : Option Twist)
    (found : node.dkgState = some d)
    (bounded : participant.index < 2 ^ 32)
    (unsubmitted : participant.phase ≠ .GPKJSubmission → known = none)
    (validators : ℕ → Option (List Validator))
    (own : participant.phase = .GPKJSubmission → 0 < participant.index ∧
      ((validators (w.epoch % 2 ^ 32)).getD [])[participant.index - 1]? =
        some ⟨account, participant.index % 2 ^ 8, some participant.gpkj⟩)
    (others : ∀ other, other ≠ account → w.dkg.participating other → ∀ v,
      ((node.validators (w.epoch % 2 ^ 32)).getD [])[(w.participant other).index - 1]? = some v →
      ((validators (w.epoch % 2 ^ 32)).getD [])[(w.participant other).index - 1]? = some v ∨
        (w.participant other).index = 0)
    (length : ∀ key, ((validators key).getD []).length =
    (addedIndices key (w.events ++ [event])).foldr max 0) :
    Tracks (recorded w account participant event) { node with
      dkgState := some { d with participants := update d.participants account (some known) }
      validators } := by
  obtain ⟨d', same, follows⟩ := tracks.dkg enrolled
  obtain rfl := some.inj (found.symm.trans same)
  refine ⟨tracks.potential, fun _ =>
    ⟨_, rfl, follows.update alive account participant event known unsubmitted⟩, ?_, ?_, length,
    tracks.quiet⟩
  · intro _ other participating submitted
    by_cases same : other = account
    · subst same
      rw [recorded_self] at submitted
      rw [memberOf, recorded_self]
      exact own submitted
    · rw [recorded_of_ne w same] at submitted
      rw [recorded_participating same] at participating
      obtain ⟨pos, place⟩ :=
        tracks.placed (unfinished_of_not_over alive) other participating submitted
      rw [memberOf, recorded_of_ne w same]
      refine ⟨pos, ?_⟩
      rcases others other same participating _ place with kept | zero
      · exact kept
      · omega
  · intro other participating
    by_cases same : other = account
    · subst same
      rw [recorded_self]
      exact bounded
    · rw [recorded_participating same] at participating
      rw [recorded_of_ne w same]
      exact tracks.bounded other participating

theorem Tracks.register (inv : w.Inv curve members)
    (ran : Bridge.Ethdkg.register w msg publicKey = .ok w') : Advances generated w w' node := by
  obtain ⟨_, window, fresh, bounded, closed⟩ := register_ok ran
  have enrolled : w.dkg.nonce ≠ 0 := by omega
  have alive := inv.alive window enrolled (by simp)
  obtain ⟨d, found, _⟩ := tracks.dkg enrolled
  have processed :
      process generated node (.AddressRegistered msg.sender (w.dkg.numParticipants + 1) w.dkg.nonce
      publicKey) = .ok { node with dkgState := some { d with
        participants := update d.participants msg.sender (some none) } } := by
    simp [process, processAddressRegistered, getDkgState, found, bind, Except.bind, pure,
      Except.pure]
  refine Tracks.close closed ?_ rfl processed ⟨fun _ => rfl, fun _ _ => rfl⟩ alive
  refine tracks.record enrolled alive msg.sender _ _ none found bounded (fun _ =>
    rfl) node.validators (by simp) (fun other _ _ v place => .inl place) ?_
  intro key
  have none :
      addedIndices key [.AddressRegistered msg.sender (w.dkg.numParticipants + 1) w.dkg.nonce
      publicKey] = [] :=
    rfl
  rw [addedIndices_append, none, append_nil]
  exact tracks.length key

theorem Tracks.submitGPKJ (inv : w.Inv curve members)
    (checked : ∀ d, node.dkgState = some d → sanityCheck generated node d msg.sender gpkj = .ok ())
    (ran : Bridge.Ethdkg.submitGPKJ w msg gpkj = .ok w') : Advances generated w w' node := by
  obtain ⟨participant, _, window, nonce, phase, _, shape, closed⟩ := submitGPKJ_ok ran
  have enrolled := inv.enrolled_of window.current (by simp)
  have alive := inv.alive window enrolled (by simp)
  have participating : w.dkg.participating msg.sender := ⟨enrolled, nonce⟩
  obtain ⟨d, found, follows⟩ := tracks.dkg enrolled
  have bounded := tracks.bounded msg.sender participating
  have mem : msg.sender ∈ members := (inv.enrolled.mem_iff _).mpr participating
  have pos : 0 < (w.participant msg.sender).index := (inv.enrolled.index_bounds mem).1
  have index : participant.index = (w.participant msg.sender).index := by rw [shape]
  have small : (w.participant msg.sender).index % 2 ^ 32 = (w.participant msg.sender).index :=
    Nat.mod_eq_of_lt bounded
  have known : d.participants msg.sender = some none :=
    follows.unsubmitted msg.sender participating (by simp [phase])
  obtain ⟨placed, place, length, own, others⟩ :=
    placeMember_ok ((node.validators (w.epoch % 2 ^ 32)).getD []) pos bounded
      ⟨msg.sender, (w.participant msg.sender).index % 2 ^ 8, some gpkj⟩
  have processed : process generated node
      (.ValidatorMemberAdded msg.sender participant.index participant.nonce w.epoch gpkj) =
        .ok { node with
        dkgState :=
          some { d with participants := update d.participants msg.sender (some (some gpkj)) }
        validators := update node.validators (w.epoch % 2 ^ 32) (some placed) } := by
    rw [process, index]
    exact processValidatorMemberAdded_ok found (checked d found) known bounded place
  refine Tracks.close closed ?_ rfl processed ⟨fun _ => rfl, fun _ _ => rfl⟩ alive
  refine tracks.record enrolled alive msg.sender participant _ (some gpkj) found
    (by rw [index]; exact bounded) (by simp [shape]) _ ?_ ?_ ?_
  · intro _
    rw [index]
    refine ⟨pos, ?_⟩
    rw [update_self, getD_some, own, shape]
  · intro other different participates v before
    by_cases zero : (w.participant other).index = 0
    · exact .inr zero
    · left
      rw [update_self, getD_some]
      refine others _ ?_ v before
      intro same
      refine different (inv.enrolled.index_injective ((inv.enrolled.mem_iff _).mpr participates) mem
        ?_)
      show (w.participant other).index = (w.participant msg.sender).index
      omega
  · intro key
    rw [addedIndices_append]
    by_cases same : w.epoch % 2 ^ 32 = key
    · have added :
        addedIndices key [.ValidatorMemberAdded msg.sender participant.index participant.nonce
        w.epoch gpkj] =
          [(w.participant msg.sender).index] := by
        simp only [addedIndices, filterMap_cons, addedIndex, same, if_true, filterMap_nil, index,
          small]
      rw [added, foldr_max_append, ← tracks.length key, ← same, update_self, getD_some, length]
    · have added :
        addedIndices key [.ValidatorMemberAdded msg.sender participant.index participant.nonce
        w.epoch gpkj] =
          [] := by
        simp only [addedIndices, filterMap_cons, addedIndex, same, if_false, filterMap_nil]
      rw [added, append_nil, update_of_ne (Ne.symm same)]
      exact tracks.length key

theorem Tracks.accused (accusing : Accusing w) (accused : Accused w w' accounts)
    (log : w'.events = w.events ++ reported)
    (kinds : ∀ event ∈ reported, event.evicted ≠ none ∨ event.pauses = true)
    (names : (reported.filterMap Event.evicted).toFinset = accounts)
    (processed : processAll generated node reported = .ok node') : Tracks w' node' := by
  obtain ⟨badParticipants, customAliceNetHeight, same⟩ := accused.dkg
  have entry : ∀ account, w'.participant account = w.participant account := by
    intro account
    rw [World.participant, same]
  have unfinished := unfinished_of_not_over accusing.not_over
  obtain ⟨stopped, epoch⟩ := accused.quiet (tracks.quiet accusing.enrolled unfinished)
  have entries : SameEntries w w' :=
    ⟨by rw [same], fun account => congrArg Participant.nonce (entry account),
      fun account => congrArg Participant.index (entry account), fun account => by rw [entry],
      fun account _ => congrArg Participant.gpkj (entry account), epoch, fun _ => stopped⟩
  obtain ⟨kept, left⟩ := processAll_evictions kinds processed
  refine tracks.frame entries log (addedIndices_evictions kinds) unfinished ?_ kept ?_
  · intro d follows
    obtain ⟨count, apart⟩ := follows.count accusing.not_over
    have fresh : Disjoint w.slashed accounts := apart.mono_right accused.active
    have fits := Finset.card_le_card accused.active
    rw [accused.validators, accused.slashed, Finset.card_union_of_disjoint fresh,
      Finset.card_sdiff_of_subset accused.active, count]
    refine ⟨by omega, ?_⟩
    rw [Finset.disjoint_union_left]
    exact ⟨apart.mono_right Finset.sdiff_subset, Finset.disjoint_sdiff⟩
  · rw [left, names, tracks.potential, accused.validators]

theorem Tracks.repopulate (ended : Over w.dkg w.number)
    (ignored : ∀ key, addedIndex key event = none) :
    Tracks ({ w with validators }.emit event) { node with potentialValidators := validators } where
  potential := rfl
  dkg := by
    intro enrolled
    obtain ⟨d, found, follows⟩ := tracks.dkg enrolled
    obtain ⟨start, phaseLength, confirmationLength, mem⟩ := follows.opened
    exact ⟨d, found, { follows with
      opened := ⟨start, phaseLength, confirmationLength, mem_append_left _ mem⟩
      count := fun alive => (alive ended).elim }⟩
  placed := tracks.placed
  bounded := tracks.bounded
  length key := by
    rw [World.emit, addedIndices_ignored (ignored key)]
    exact tracks.length key
  quiet := tracks.quiet

theorem Tracks.initializeETHDKG (inv : w.Inv curve members)
    (ran : Bridge.Ethdkg.ValidatorPool.initializeETHDKG contract w msg = .ok w') :
    Advances generated w w' node := by
  obtain ⟨_, stopped, rfl⟩ := initializeETHDKG_ok ran
  have nobody : ∀ account, (w.participant account).nonce ≠ w.dkg.nonce + 1 := by
    intro account
    exact ((inv.nonces account).trans_lt (Nat.lt_succ_self _)).ne
  refine ⟨[_], processRegistrationOpened node (w.dkg.nonce + 1), rfl, rfl, tracks.potential, ?_, ?_,
    ?_, ?_, ?_⟩
  · intro _
    refine ⟨_, rfl, rfl, ⟨w.number, w.dkg.phaseLength, w.dkg.confirmationLength, ?_⟩, ?_, ?_, ?_⟩
    · rw [tracks.potential]
      exact mem_append_right _ mem_cons_self
    · exact fun account participating => (nobody account participating.2).elim
    · exact fun account participating => (nobody account participating.2).elim
    · intro _
      exact ⟨congrArg Finset.card tracks.potential, Finset.disjoint_empty_left _⟩
  · exact fun _ account participating => (nobody account participating.2).elim
  · exact fun account participating => (nobody account participating.2).elim
  · intro key
    rw [addedIndices_ignored rfl]
    exact tracks.length key
  · exact fun _ _ => stopped

theorem Tracks.snapshot (running : w.isConsensusRunning = true) (maintenance : Bool) :
    Tracks { w with epoch := w.epoch + 1, isConsensusRunning := !maintenance } node :=
  have restless : w.dkg.nonce ≠ 0 → w.dkg.ethdkgPhase ≠ .Completion → False :=
    fun enrolled unfinished => by
      have stopped := tracks.quiet enrolled unfinished
      simp [running] at stopped
  { tracks with
    dkg := fun enrolled => (tracks.dkg enrolled).imp fun _ => .imp_right fun follows =>
      { follows with }
    placed := fun unfinished _ participating _ => (restless participating.1 unfinished).elim
    quiet := fun enrolled unfinished => (restless enrolled unfinished).elim }

theorem Tracks.paused (kept : Keeps node node')
    (potential : node'.potentialValidators = node.potentialValidators)
    (ethHeight aliceNetHeight : ℕ) : Tracks (w.paused ethHeight aliceNetHeight) node' where
  potential := potential.trans tracks.potential
  dkg := by
    intro enrolled
    obtain ⟨d, found, follows⟩ := tracks.dkg enrolled
    obtain ⟨start, phaseLength, confirmationLength, mem⟩ := follows.opened
    exact ⟨d, kept.dkgState.trans found, { follows with
      opened := ⟨start, phaseLength, confirmationLength, mem_append_left _ mem⟩ }⟩
  placed := by
    rw [kept.validators]
    exact tracks.placed
  bounded := tracks.bounded
  length key := by
    rw [World.paused, World.emit, addedIndices_ignored rfl, kept.validators]
    exact tracks.length key
  quiet _ _ := rfl

theorem Tracks.block (later : w.number ≤ number) : Tracks { w with number } node :=
  { tracks with
    dkg := fun enrolled => (tracks.dkg enrolled).imp fun _ => .imp_right fun follows =>
      { follows with count := fun alive => follows.count fun ended => alive (ended.later later) } }

end

end

end AliceNet.Layer1.ValidatorSets
