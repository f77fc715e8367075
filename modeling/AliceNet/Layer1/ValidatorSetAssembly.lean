import AliceNet.Layer1.ValidatorSetRuns

/-! The assembly of validator sets over whole runs of the contract. -/

namespace AliceNet.Layer1.ValidatorSets

open Outcome
open Crypto (Curve Point Twist)
open Crypto.CryptoLibrary (G1 H1 encodePoints)
open Bridge.Ethdkg
open List

section

variable {generated : ℕ → Option Twist} {curve : Curve} {w w' v : World} {node node' : Node}

private theorem readSlots_some : readSlots (members.map some) = .ok members := by
  induction members with
  | nil => rfl
  | cons mem rest ih =>
    rw [map_cons, readSlots, ih]
    rfl

def published (w : World) (account : Address) : ConsensusValidator :=
  ⟨Bytes.bigEndian 20 account, shareBytes (w.participant account).gpkj⟩

private theorem fillSlots_members (w : World) {rest : List Address}
    (done : List (Option ConsensusValidator))
    (indices : rest.map (fun account => (w.participant account).index) =
      range' (done.length + 1) rest.length)
    (bounded : done.length + rest.length ≤ 255) :
    fillSlots (rest.map (memberOf w)) (done ++ replicate rest.length none) =
      .ok (done ++ rest.map (fun account => some (published w account))) := by
  induction rest generalizing done with
  | nil => rfl
  | cons account rest ih =>
    rw [map_cons, length_cons, range'_succ, cons.injEq] at indices
    rw [length_cons] at bounded
    obtain ⟨index, indices⟩ := indices
    have slot : ((memberOf w account).index + (2 ^ 8 - 1)) % 2 ^ 8 = done.length := by
      show ((w.participant account).index % 2 ^ 8 + (2 ^ 8 - 1)) % 2 ^ 8 = done.length
      omega
    have inside : done.length < (done ++ replicate (rest.length + 1) none).length := by simp
    have set : (done ++ replicate (rest.length + 1) none).set done.length
        (some (published w account)) =
        (done ++ [some (published w account)]) ++ replicate rest.length none := by
      rw [replicate_succ, set_append_right _ _ le_rfl, Nat.sub_self, set_cons_zero, append_assoc]
      rfl
    have next := ih (done ++ [some (published w account)]) (by simpa using indices) (by simp; omega)
    rw [map_cons, length_cons, fillSlots, slot]
    refine bind_ok_iff.mpr ⟨_, marshalG2Big_some _, bind_ok_iff.mpr ⟨(), require_of inside _, ?_⟩⟩
    refine Eq.trans (congrArg _ set) (next.trans ?_)
    rw [append_assoc]
    rfl

/-- The members that the node has collected for an epoch -/
abbrev Node.collected (node : Node) (epoch : ℕ) : List Validator :=
    (node.validators (epoch % 2 ^ 32)).getD []

theorem processValidatorSetCompleted_adds (found : node.dkgState = some d)
    (count : (node.collected epoch).length = d.numberOfValidators) :
    processValidatorSetCompleted node validatorCount epoch aliceNetHeight groupKey = .ok node' ↔
      ∃ slots members, fillSlots (node.collected epoch)
          (replicate (validatorCount % 2 ^ 8) none) = .ok slots ∧ readSlots slots = .ok members ∧
        node' = { node with
          validatorSets := Function.update node.validatorSets (epoch % 2 ^ 32)
            (some ⟨validatorCount % 2 ^ 8, groupKey, aliceNetHeight % 2 ^ 32⟩)
          added := node.added ++ [⟨shareBytes groupKey, members, aliceNetHeight % 2 ^ 32⟩] } := by
  have reached : (node.collected epoch).length = d.numberOfValidators ∨
      (node.collected epoch).length = 0 := .inl count
  simp only [processValidatorSetCompleted, checkValidatorSet, getDkgState, found, marshalG2Big_some,
    ok_iff, Except.ok.injEq, exists_eq_left', if_pos reached]
  constructor
  · rintro ⟨slots, filled, members, read, rfl⟩
    exact ⟨slots, members, filled, read, rfl⟩
  · rintro ⟨slots, members, filled, read, rfl⟩
    exact ⟨slots, filled, members, read, rfl⟩

private theorem processValidatorSetCompleted_waits (found : node.dkgState = some d)
    (differs : (node.collected epoch).length ≠ d.numberOfValidators)
    (collected : (node.collected epoch).length ≠ 0) :
    processValidatorSetCompleted node validatorCount epoch aliceNetHeight groupKey = .ok { node with
      validatorSets := Function.update node.validatorSets (epoch % 2 ^ 32)
        (some ⟨validatorCount % 2 ^ 8, groupKey, aliceNetHeight % 2 ^ 32⟩) } := by
  have short : ¬ ((node.collected epoch).length = d.numberOfValidators ∨
      (node.collected epoch).length = 0) := by
    rw [not_or]
    exact ⟨differs, collected⟩
  simp only [processValidatorSetCompleted, checkValidatorSet, getDkgState, found, ok_iff,
    Except.ok.injEq, exists_eq_left', if_neg short]

variable {members : List Address}

section

variable (tracks : Tracks w node) (inv : w.Inv curve members) (unfinished : w.dkg.ethdkgPhase ≠
  .Completion) (submitted : ∀ account ∈ members, (w.participant account).phase = .GPKJSubmission)

include tracks inv unfinished submitted

theorem Tracks.collected (count : (node.collected w.epoch).length = members.length) :
    node.collected w.epoch = members.map (memberOf w) := by
  refine ext_getElem? ?_
  intro i
  by_cases inside : i < members.length
  · have mem : members[i] ∈ members := getElem_mem inside
    have index : (w.participant members[i]).index = i + 1 := inv.enrolled.index_getElem inside
    have place := (tracks.placed unfinished _ ((inv.enrolled.mem_iff _).mp mem) (submitted _ mem)).2
    rw [index, Nat.add_sub_cancel] at place
    rw [place, getElem?_map, getElem?_eq_getElem inside]
    rfl
  · rw [getElem?_eq_none (by omega), getElem?_eq_none (by rw [length_map]; omega)]

theorem Tracks.collects : members.length ≤ (node.collected w.epoch).length := by
  by_contra short
  rw [Node.collected] at short
  have last : members.length - 1 < members.length := by omega
  have mem : members[members.length - 1] ∈ members := getElem_mem last
  have index : (w.participant members[members.length - 1]).index = members.length - 1 + 1 :=
    inv.enrolled.index_getElem last
  have place := (tracks.placed unfinished _ ((inv.enrolled.mem_iff _).mp mem) (submitted _ mem)).2
  rw [index, getElem?_eq_none (by omega)] at place
  cases place

end

/-- What is known of a round that is completed -/
structure Completing (w : World) (node : Node) (members : List Address) (d : DkgState) : Prop where
  enrolled : Enrolled w.dkg members
  found : node.dkgState = some d
  count : d.numberOfValidators = members.length
  validators : w.validators.card = members.length
  collects : members.length ≤ ((node.validators (w.epoch % 2 ^ 32)).getD []).length
  collected : ((node.validators (w.epoch % 2 ^ 32)).getD []).length = members.length →
    (node.validators (w.epoch % 2 ^ 32)).getD [] = members.map (memberOf w)

theorem Tracks.completing (tracks : Tracks w node) (inv : w.Inv curve members)
    (window : Awaiting w .DisputeGPKJSubmission) (undisputed : w.dkg.badParticipants = 0) :
    ∃ d, Follows w d ∧ Completing w node members d := by
  obtain ⟨⟨_, enrolled, bounded, unslashed, everyone⟩, submitted⟩ :=
    inv.completing window undisputed
  have alive := window.not_over (inv.started_of enrolled bounded) (by simp) (fun _ => undisputed)
  have unfinished := unfinished_of_not_over alive
  obtain ⟨d, found, follows⟩ := tracks.dkg enrolled
  refine ⟨d, follows, inv.enrolled, found, ?_, everyone.symm,
    tracks.collects inv unfinished submitted, tracks.collected inv unfinished submitted⟩
  rw [(follows.count alive).1, unslashed, Finset.card_empty, Nat.add_zero, everyone]

def completion (w : World) (msg : Msg) (aliceNetHeight : ℕ) : Event :=
  .ValidatorSetCompleted (w.validators.card % 2 ^ 8) w.dkg.nonce w.epoch
    msg.getCommittedHeightFromLatestSnapshot aliceNetHeight w.dkg.masterPublicKey

section

variable {members : List Address} {d : DkgState} (completing : Completing w node members d)

include completing

theorem Completing.hands_over (generated : ℕ → Option Twist)
    (exact : (node.collected w.epoch).length = members.length) (small : members.length ≤ 255)
    (msg : Msg) (aliceNetHeight : ℕ) :
    ∃ node', process generated node (completion w msg aliceNetHeight) = .ok node' ∧
      node'.added = node.added ++
        [⟨shareBytes w.dkg.masterPublicKey, members.map (published w),
          aliceNetHeight % 2 ^ 32⟩] := by
  have count : w.validators.card % 2 ^ 8 % 2 ^ 8 = members.length := by
    rw [completing.validators]
    omega
  have filled := fillSlots_members w [] completing.enrolled.indices (by simpa using small)
  refine ⟨_,
    (processValidatorSetCompleted_adds completing.found (exact.trans completing.count.symm)).mpr
    ⟨(members.map (published w)).map some, members.map (published w), ?_, readSlots_some, rfl⟩, rfl⟩
  rw [Node.collected, completing.collected exact, count, map_map]
  exact filled

theorem Completing.waits (generated : ℕ → Option Twist)
    (longer : (node.collected w.epoch).length ≠ members.length) (msg : Msg) (aliceNetHeight : ℕ) :
    ∃ node', process generated node (completion w msg aliceNetHeight) = .ok node' ∧ node'.added =
      node.added := by
  have collects : _ ≤ (node.collected w.epoch).length := completing.collects
  refine ⟨_, processValidatorSetCompleted_waits completing.found ?_ (by omega), rfl⟩
  rwa [completing.count]

end

/-- No round is opened for more validators than a byte can count. -/
def Small (events : List Event) : Prop :=
  ∀ start numberValidators nonce phaseLength confirmationLength,
    Event.RegistrationOpened start numberValidators nonce phaseLength confirmationLength ∈ events →
      numberValidators ≤ 255

/-- The consensus is never stopped without a snapshot. -/
def Unpaused (events : List Event) : Prop := ∀ event ∈ events, event.pauses = false

def Reads (generated : ℕ → Option Twist) (w w' : World) (node : Node) : Prop :=
  ∃ more, w'.events = w.events ++ more ∧
    (∀ node', processAll generated node more = .ok node' → Tracks w' node') ∧
    (Honest generated node.account w'.events → Small w'.events → Unpaused w'.events →
      ∃ node', processAll generated node more = .ok node')

theorem Advances.reads (advances : Advances generated w w' node) : Reads generated w w' node := by
  obtain ⟨more, node', events, processed, tracks⟩ := advances
  refine ⟨more, events, ?_, fun _ _ _ => ⟨node', processed⟩⟩
  intro other found
  obtain rfl := Except.ok.inj (processed.symm.trans found)
  exact tracks

theorem processAll_singleton (generated : ℕ → Option Twist) (node : Node) (event : Event) :
    processAll generated node [event] = process generated node event := by
  exact bind_pure _

theorem Reads.complete (tracks : Tracks w node) (inv : w.Inv curve members)
    (ran : complete w msg = .ok w') : Reads generated w w' node := by
  obtain ⟨aliceNetHeight, window, undisputed, rfl⟩ := complete_ok ran
  obtain ⟨d, follows, completing⟩ := tracks.completing inv window undisputed
  refine ⟨[completion w msg aliceNetHeight], rfl, ?_, ?_⟩
  · intro node' processed
    rw [processAll_singleton] at processed
    obtain ⟨⟨dkg, validators⟩, potential⟩ := processValidatorSetCompleted_ok processed
    refine ⟨potential.trans tracks.potential, ?_, fun unfinished => (unfinished rfl).elim,
      tracks.bounded, ?_, fun _ unfinished => (unfinished rfl).elim⟩
    · intro _
      obtain ⟨start, phaseLength, confirmationLength, mem⟩ := follows.opened
      exact ⟨d, dkg.trans completing.found, follows.nonce,
        ⟨start, phaseLength, confirmationLength, mem_append_left _ mem⟩, follows.registered,
        follows.unsubmitted, fun alive => (alive (.inr (.inl rfl))).elim⟩
    · intro key
      rw [validators, World.emit, addedIndices_ignored rfl]
      exact tracks.length key
  · intro _ small _
    rw [processAll_singleton]
    by_cases exact : (node.collected w.epoch).length = members.length
    · obtain ⟨start, phaseLength, confirmationLength, mem⟩ := follows.opened
      have fits := small _ _ _ _ _ (mem_append_left _ mem)
      rw [completing.count] at fits
      obtain ⟨node', processed, _⟩ := completing.hands_over generated exact fits msg aliceNetHeight
      exact ⟨node', processed⟩
    · obtain ⟨node', processed, _⟩ := completing.waits generated exact msg aliceNetHeight
      exact ⟨node', processed⟩

theorem Tracks.sanityCheck (tracks : Tracks w node) (inv : w.Inv curve members)
    (honest : Honest generated node.account w'.events)
    (ran : Bridge.Ethdkg.submitGPKJ w msg gpkj = .ok w') (found : node.dkgState = some d) :
    ValidatorSets.sanityCheck generated node d msg.sender gpkj = .ok () := by
  obtain ⟨participant, _, window, nonce, phase, _, shape, closed⟩ := submitGPKJ_ok ran
  have enrolled := inv.enrolled_of window.current (by simp)
  obtain ⟨_, same, follows⟩ := tracks.dkg enrolled
  obtain rfl := Option.some.inj (found.symm.trans same)
  have known := follows.unsubmitted msg.sender ⟨enrolled, nonce⟩ (by simp [phase])
  refine sanityCheck_ok known ?_
  intro own mine stored
  refine honest participant.index participant.nonce w.epoch gpkj ?_ mine ?_
  · rw [← own]
    rcases Closed.events closed with stays | appended
    · rw [stays]
      exact mem_append_right _ mem_cons_self
    · rw [appended]
      exact mem_append_left _ (mem_append_right _ mem_cons_self)
  · rw [← stored, follows.nonce, shape]
    exact congrArg generated nonce

private theorem sanityCheck_of_processed (found : node.dkgState = some d)
    (processed : processAll generated node (.ValidatorMemberAdded account index nonce epoch share ::
      more) = .ok node') : sanityCheck generated node d account share = .ok () := by
  simp only [processAll, foldlM_cons, process, processValidatorMemberAdded, getDkgState, found,
    bind_ok_iff, Except.ok.injEq, exists_eq_left'] at processed
  obtain ⟨_, ⟨_, checked, _⟩, _⟩ := processed
  exact checked

theorem Reads.submitGPKJ (tracks : Tracks w node) (inv : w.Inv curve members)
    (ran : Bridge.Ethdkg.submitGPKJ w msg gpkj = .ok w') : Reads generated w w' node := by
  obtain ⟨participant, _, _, _, _, _, _, closed⟩ := submitGPKJ_ok ran
  obtain ⟨last, events⟩ : ∃ last, w'.events = w.events ++
      (.ValidatorMemberAdded msg.sender participant.index participant.nonce w.epoch gpkj ::
          last) := by
    rcases Closed.events closed with stays | appended
    · exact ⟨[], stays⟩
    · exact ⟨[.GPKJSubmissionComplete w.number], appended.trans (append_assoc _ _ _)⟩
  refine ⟨_, events, ?_, ?_⟩
  · intro node' processed
    obtain ⟨_, _, same, found, tracked⟩ :=
      tracks.submitGPKJ inv (fun _ found => sanityCheck_of_processed found processed) ran
    obtain rfl := append_cancel_left (events.symm.trans same)
    obtain rfl := Except.ok.inj (processed.symm.trans found)
    exact tracked
  · intro honest _ _
    obtain ⟨_, node', same, found, _⟩ :=
      tracks.submitGPKJ inv (fun _ found => tracks.sanityCheck inv honest ran found) ran
    obtain rfl := append_cancel_left (events.symm.trans same)
    exact ⟨node', found⟩

theorem Reads.accused (tracks : Tracks w node) (accusing : Accusing w)
    (accused : Accused w w' accounts) : Reads generated w w' node := by
  obtain ⟨reported, log, kinds, nodup, names⟩ := accused.events
  refine ⟨reported, log, fun _ => tracks.accused accusing accused log kinds names, ?_⟩
  intro _ _ unpaused
  refine processes_evictions ?_ nodup ?_
  · intro event mem
    refine (kinds event mem).resolve_right ?_
    rw [unpaused event (log ▸ mem_append_right _ mem)]
    exact Bool.noConfusion
  · intro account mem
    rw [tracks.potential]
    exact accused.active (names ▸ mem_toFinset.mpr mem)

theorem Reads.paused (tracks : Tracks w node) (ethHeight aliceNetHeight : ℕ) :
    Reads generated w (w.paused ethHeight aliceNetHeight) node := by
  refine ⟨[_], rfl, ?_, ?_⟩
  · intro node' processed
    rw [processAll_singleton] at processed
    obtain ⟨kept, potential⟩ := processValidatorSetCompleted_ok processed
    exact tracks.paused kept potential _ _
  · intro _ _ unpaused
    exact absurd (unpaused _ (mem_append_right _ mem_cons_self)) Bool.noConfusion

theorem Tracks.advances (tracks : Tracks w' node) (events : w'.events = w.events) :
    Advances generated w w' node :=
  ⟨[], node, by rw [events, append_nil], rfl, tracks⟩

theorem Reads.step (generated : ℕ → Option Twist) (tracks : Tracks w node)
    (inv : w.Inv curve members) (step : Step contract curve (Nested contract curve depth) w w') :
    Reads generated w w' node := by
  have again := step
  cases step with
  | call msg call reaction ran =>
    cases call with
    | initializeETHDKG => exact (tracks.initializeETHDKG inv ran).reads
    | pauseConsensusOnArbitraryHeight aliceNetHeight =>
      obtain rfl := pauseConsensusOnArbitraryHeight_ok ran
      exact .paused tracks _ _
    | register publicKey => exact (tracks.register inv ran).reads
    | distributeShares encryptedShares commitments => exact (tracks.distributeShares inv ran).reads
    | submitKeyShare keyShareG1 proof keyShareG2 => exact (tracks.submitKeyShare inv ran).reads
    | submitMasterPublicKey masterPublicKey =>
      exact (tracks.submitMasterPublicKey inv msg ran).reads
    | submitGPKJ gpkj => exact .submitGPKJ tracks inv ran
    | complete => exact .complete tracks inv ran
    | _ =>
      rcases inv.accusation rfl ran with rfl | accusing
      · exact (tracks.advances rfl).reads
      · obtain ⟨accounts, accused⟩ := accusing.step (nested_accuses contract curve depth) again
        exact .accused tracks accusing accused
  | joins account absent idle =>
    have ended : Over w.dkg w.number := (over_iff_of_running idle).mpr rfl
    refine Advances.reads ⟨[.ValidatorJoined account],
      { node with potentialValidators := insert account w.validators }, rfl, ?_,
      tracks.repopulate ended (fun _ => rfl)⟩
    rw [processAll_singleton, ← tracks.potential]
    rfl
  | leaves account mem idle =>
    have ended : Over w.dkg w.number := (over_iff_of_running idle).mpr rfl
    refine Advances.reads ⟨[.ValidatorLeft account],
      { node with potentialValidators := w.validators.erase account }, rfl, ?_,
      tracks.repopulate ended (fun _ => rfl)⟩
    rw [← tracks.potential] at mem ⊢
    rw [processAll_singleton, process, deletePotentialValidator, require_of mem]
    rfl
  | snapshot maintenance running =>
    exact ((tracks.snapshot running maintenance).advances rfl).reads

theorem Run.tracks (run : Run contract curve w)
    (processed : processAll generated { account } w.events = .ok node) : Tracks w node := by
  induction run generalizing node with
  | start phaseLength confirmationLength epoch number pos =>
    rw [deployed, processAll, foldlM_nil, pure_ok_iff] at processed
    subst processed
    refine ⟨rfl, ?_, ?_, ?_, fun _ => rfl, ?_⟩
    all_goals simp [deployed, Storage.participating]
  | step run _ step ih =>
    obtain ⟨_, inv⟩ := run.inv
    obtain ⟨more, events⟩ := inv.grows step
    rw [← events, processAll_append_ok] at processed
    obtain ⟨middle, first, rest⟩ := processed
    obtain ⟨_, same, reads, _⟩ := Reads.step generated (ih first) inv step
    obtain rfl := append_cancel_left (events.trans same)
    exact reads _ rest
  | block _ number later ih => exact (ih processed).block later

end

def follow (w : World) (calls : List (ℕ × Address × Call)) : World :=
  calls.foldl (fun w call => transact sampleContract Crypto.Scalars.curve { w with
    number := max w.number call.1 }
    (sampleMsg call.2.1) call.2.2) w

theorem follow_run (run : Run sampleContract Crypto.Scalars.curve w)
    (calls : List (ℕ × Address × Call)) :
    Run sampleContract Crypto.Scalars.curve (follow w calls) := by
  refine foldlRecOn calls _ run ?_
  intro v run call _
  exact (run.block _ (le_max_left _ _)).transact _ _ _ rfl _

def sampleKeyProof : Point :=
  let challenge := (Crypto.Scalars.keccak256 (encodePoints [H1, H1, G1, G1, H1, G1])).toNat
  (challenge, ((1 - challenge : ℤ) % Crypto.Order).toNat)

def sampleRound (members : List Address) (start : ℕ) : List (ℕ × Address × Call) :=
  (start, 90, .initializeETHDKG) ::
  members.map (fun account => (start, account, .register G1)) ++
  members.map (fun account =>
    (start + 6, account, .distributeShares (List.replicate (members.length - 1) 1)
    (List.replicate (getThreshold members.length + 1) G1))) ++
  members.map (fun account =>
    (start + 52, account, .submitKeyShare H1 sampleKeyProof (1, 0, 0, 0))) ++
  [(start + 58, 1, .submitMasterPublicKey (members.length, 0, 0, 0))]

theorem toOption_eq_some_iff {result : Except ε α} :
    result.toOption = some value ↔ result = .ok value := by
  cases result with
  | error failure => simp [Except.toOption]
  | ok other => simp [Except.toOption]

/-- The indices, the nonces and the first words of the keys -/
def entries (w : World) (accounts : List Address) : List (ℕ × ℕ × ℕ) :=
  accounts.map fun account =>
    ((w.participant account).index, (w.participant account).nonce, (w.participant account).gpkj.1)

end AliceNet.Layer1.ValidatorSets
