import AliceNet.Bridge.EthdkgEffects
import AliceNet.Crypto.Scalars

/-! The invariant of a round of the key generation. -/

namespace AliceNet.Bridge.Ethdkg

open Outcome Function
open Crypto (Curve Point Twist)
open Crypto.CryptoLibrary
open List hiding all next

/-- `members` are the participants of the round, by their indices. -/
structure Enrolled (s : Storage) (members : List Address) : Prop where
  nodup : members.Nodup
  mem_iff : ∀ account, account ∈ members ↔ s.participating account
  indices : members.map (fun account => (s.participants account).index) =
    List.range' 1 members.length

theorem Enrolled.index_bounds (enrolled : Enrolled s members) (mem : account ∈ members) :
    1 ≤ (s.participants account).index ∧ (s.participants account).index ≤ members.length := by
  have listed : (s.participants account).index ∈ range' 1 members.length := by
    rw [← enrolled.indices]
    exact mem_map_of_mem mem
  rw [mem_range'_1] at listed
  omega

theorem Enrolled.index_getElem (enrolled : Enrolled s members) (inside : i < members.length) :
    (s.participants members[i]).index = i + 1 := by
  have indices := congrArg (·[i]?) enrolled.indices
  simpa [inside, Nat.add_comm] using indices

theorem Enrolled.index_injective (enrolled : Enrolled s members) (mem : account ∈ members)
    (other : account' ∈ members)
    (same : (s.participants account).index = (s.participants account').index) :
    account = account' := by
  have distinct : (members.map fun account => (s.participants account).index).Nodup := by
    rw [enrolled.indices]
    exact nodup_range'
  exact inj_on_of_nodup_map distinct mem other same

theorem Enrolled.eq_of_indices (enrolled : Enrolled s members) {items : List Address}
    (opened : s.nonce ≠ 0) (length : members.length = items.length)
    (nonces : ∀ account ∈ items, (s.participants account).nonce = s.nonce)
    (indices : items.map (fun account => (s.participants account).index) = range' 1 items.length) :
    members = items := by
  refine ext_getElem length fun i inside inside' => ?_
  have mem : items[i] ∈ members :=
    (enrolled.mem_iff _).mpr ⟨opened, nonces _ (getElem_mem inside')⟩
  have place := congrArg (·[i]?) indices
  have index : (s.participants items[i]).index = i + 1 := by
    simpa [inside', Nat.add_comm] using place
  refine enrolled.index_injective (getElem_mem inside) mem ?_
  rw [enrolled.index_getElem inside, index]

/-- What everyone has done before the phase begins -/
def Phase.required : Phase → Phase
  | .RegistrationOpen => .RegistrationOpen
  | .ShareDistribution => .RegistrationOpen
  | .DisputeShareDistribution => .ShareDistribution
  | .KeyShareSubmission => .ShareDistribution
  | .MPKSubmission => .KeyShareSubmission
  | .GPKJSubmission => .KeyShareSubmission
  | .DisputeGPKJSubmission => .GPKJSubmission
  | .Completion => .GPKJSubmission

/-- The phases from the submission of the master public key on -/
def Phase.late (phase : Phase) : Prop :=
  phase = .MPKSubmission ∨ phase = .GPKJSubmission ∨ phase = .DisputeGPKJSubmission ∨
    phase = .Completion

/-- How many of the participants have completed the current phase -/
def Storage.submitted (s : Storage) (members : List Address) : ℕ :=
  members.countP fun account => (s.participants account).phase = s.ethdkgPhase

/-- The stored sum is the sum of all key shares. -/
def SumsKeyShares (curve : Curve) (s : Storage) (members : List Address) : Prop :=
  ∃ share : Address → curve.G1,
    (∀ account ∈ members, curve.unmarshalG1 (s.participants account).keyShares =
      some (share account)) ∧
    curve.unmarshalG1 s.mpkG1 = some (members.map share).sum

structure Inv (curve : Curve) (s : Storage) (validators slashed : Finset Address) (number : ℕ)
    (members : List Address) : Prop where
  positive : 0 < number
  enrolled : Enrolled s members
  nonces : ∀ account, (s.participants account).nonce ≤ s.nonce
  dormant : s.nonce = 0 → s.ethdkgPhase = .RegistrationOpen
  started : s.nonce ≠ 0 → 0 < s.phaseStartBlock ∨ 2 ^ 64 ≤ number
  reached : ∀ account ∈ members, (s.participants account).phase = s.ethdkgPhase.required ∨
    s.ethdkgPhase.submission ∧ (s.participants account).phase = s.ethdkgPhase
  counted : s.numParticipants = s.submitted members
  populated : s.ethdkgPhase ≠ .RegistrationOpen → ¬ Over s number →
    members.length = validators.card + slashed.card ∧ (∀ account ∈ slashed, account ∈ members) ∧
      Disjoint slashed validators
  blamed : slashed.Nonempty → s.badParticipants ≠ 0 ∧
    (s.ethdkgPhase.dispute ∨ s.phaseStartBlock + s.phaseLength ≤ number)
  unshared : ∀ account ∈ members,
    (s.participants account).phase = .RegistrationOpen ∨ (s.participants account).phase =
      .ShareDistribution → (s.participants account).keyShares = (0, 0)
  summed : s.ethdkgPhase = .KeyShareSubmission ∧ s.numParticipants ≠ 0 ∨ s.ethdkgPhase.late →
    SumsKeyShares curve s members
  announced : ∀ account ∈ members, (s.participants account).phase = .GPKJSubmission →
    (s.participants account).gpkj ≠ (0, 0, 0, 0)

def World.Inv (curve : Curve) (w : World) (members : List Address) : Prop :=
  Ethdkg.Inv curve w.dkg w.validators w.slashed w.number members

section

variable {curve : Curve} {w : World} {members : List Address}

section

variable (inv : w.Inv curve members)

include inv

theorem World.Inv.started_of (enrolled : w.dkg.nonce ≠ 0) (bounded : w.number < 2 ^ 64) :
    0 < w.dkg.phaseStartBlock := by
  rcases inv.started enrolled with started | far
  · exact started
  · omega

theorem World.Inv.enrolled_of (current : w.dkg.ethdkgPhase = phase)
    (later : phase ≠ .RegistrationOpen) : w.dkg.nonce ≠ 0 := by
  intro none
  exact later (current.symm.trans (inv.dormant none))

theorem World.Inv.alive (window : Submitting w phase) (enrolled : w.dkg.nonce ≠ 0)
    (unfinished : phase ≠ .Completion) : ¬ Over w.dkg w.number :=
  window.not_over (inv.started_of enrolled (window.inTime.trans window.bounded)) unfinished

theorem World.Inv.unslashed (window : Submitting w phase) (undisputed : ¬ phase.dispute) :
    w.slashed = ∅ := by
  rw [← Finset.not_nonempty_iff_eq_empty]
  intro someone
  have inTime := window.inTime
  rcases (inv.blamed someone).2 with dispute | expired
  · rw [window.current] at dispute
    exact undisputed dispute
  · omega

theorem World.Inv.unslashed_of_bad (none : w.dkg.badParticipants = 0) : w.slashed = ∅ := by
  rw [← Finset.not_nonempty_iff_eq_empty]
  intro someone
  exact (inv.blamed someone).1 none

theorem World.Inv.everyone (later : w.dkg.ethdkgPhase ≠ .RegistrationOpen)
    (running : ¬ Over w.dkg w.number) (unslashed : w.slashed = ∅) :
    members.length = w.validators.card := by
  have count := (inv.populated later running).1
  rwa [unslashed, Finset.card_empty, Nat.add_zero] at count

end

structure Running (w : World) (members : List Address) (phase : Phase) : Prop where
  current : w.dkg.ethdkgPhase = phase
  enrolled : w.dkg.nonce ≠ 0
  bounded : w.number < 2 ^ 64
  unslashed : w.slashed = ∅
  everyone : members.length = w.validators.card

theorem World.Inv.submitting (inv : w.Inv curve members) (window : Submitting w phase)
    (later : phase ≠ .RegistrationOpen) (unfinished : phase ≠ .Completion)
    (undisputed : ¬ phase.dispute) : Running w members phase := by
  have enrolled := inv.enrolled_of window.current later
  have unslashed := inv.unslashed window undisputed
  exact ⟨window.current, enrolled, window.inTime.trans window.bounded, unslashed,
    inv.everyone (window.current ▸ later) (inv.alive window enrolled unfinished) unslashed⟩

theorem World.Inv.awaiting (inv : w.Inv curve members) (window : Awaiting w phase)
    (later : phase ≠ .RegistrationOpen) (unfinished : phase ≠ .Completion)
    (undisputed : w.dkg.badParticipants = 0) : Running w members phase := by
  have enrolled := inv.enrolled_of window.current later
  have bounded : w.number < 2 ^ 64 := window.inTime.trans window.bounded
  have unslashed := inv.unslashed_of_bad undisputed
  exact ⟨window.current, enrolled, bounded, unslashed, inv.everyone (window.current ▸ later)
    (window.not_over (inv.started_of enrolled bounded) unfinished fun _ => undisputed) unslashed⟩

end

section

variable {curve : Curve} {s : Storage} {validators slashed : Finset Address} {number : ℕ}
  {members : List Address}

private theorem countP_update_of_mem [DecidableEq α] {before after : α → Bool} {items : List α}
    (nodup : items.Nodup) (mem : item ∈ items) (gained : before item = false ∧ after item = true)
    (kept : ∀ other ∈ items, other ≠ item → before other = after other) :
    items.countP after = items.countP before + 1 := by
  have parts := perm_cons_erase mem
  have others : (items.erase item).countP after = (items.erase item).countP before := by
    refine countP_congr fun other found => ?_
    rw [kept other (mem_of_mem_erase found) fun same => nodup.not_mem_erase (same ▸ found)]
  rw [parts.countP_eq, parts.countP_eq before, countP_cons, countP_cons, others]
  simp [gained]

theorem Enrolled.update (enrolled : Enrolled s members) {participant : Participant}
    (nonce : participant.nonce = (s.participants account).nonce)
    (index : participant.index = (s.participants account).index) :
    Enrolled { s with participants := Function.update s.participants account participant }
      members := by
  have fields : ∀ other, (Function.update s.participants account participant other).nonce =
      (s.participants other).nonce ∧
      (Function.update s.participants account participant other).index =
          (s.participants other).index := by
    intro other
    by_cases same : other = account
    · subst same
      rw [update_self]
      exact ⟨nonce, index⟩
    · rw [update_of_ne same]
      exact ⟨rfl, rfl⟩
  refine ⟨enrolled.nodup, ?_, ?_⟩
  · intro other
    rw [enrolled.mem_iff, Storage.participating, Storage.participating, (fields other).1]
  · rw [← enrolled.indices]
    exact map_congr_left fun other _ => (fields other).2

theorem Inv.submit (inv : Inv curve s validators slashed number members) (mem : account ∈ members)
    (before : (s.participants account).phase ≠ s.ethdkgPhase)
    (submission : s.ethdkgPhase.submission)
    (participant : Participant) (mpkG1 : Point) (phase : participant.phase = s.ethdkgPhase)
    (nonce : participant.nonce = (s.participants account).nonce)
    (index : participant.index = (s.participants account).index)
    (unshared : s.ethdkgPhase = .ShareDistribution → participant.keyShares = (0, 0))
    (announced : s.ethdkgPhase = .GPKJSubmission → participant.gpkj ≠ (0, 0, 0, 0))
    (summed : s.ethdkgPhase = .KeyShareSubmission ∨ s.ethdkgPhase.late →
      SumsKeyShares curve
        { s with participants := Function.update s.participants account participant, mpkG1 }
        members) :
    Inv curve { s with
      participants := Function.update s.participants account participant
      numParticipants := s.numParticipants + 1
      mpkG1 } validators slashed number members := by
  have later : s.ethdkgPhase ≠ .RegistrationOpen := by
    intro first
    rcases inv.reached account mem with last | ⟨_, last⟩
    · rw [first] at last before
      exact before last
    · exact before last
  have enrolled : Enrolled { s with participants := update s.participants account participant }
      members :=
    inv.enrolled.update nonce index
  refine ⟨inv.positive, ⟨enrolled.nodup, enrolled.mem_iff, enrolled.indices⟩, ?_, inv.dormant,
    inv.started, ?_, ?_, inv.populated, inv.blamed, ?_, ?_, ?_⟩
  · intro other
    by_cases same : other = account
    · subst same
      simp only [update_self]
      rw [nonce]
      exact inv.nonces other
    · simp only [update_of_ne same]
      exact inv.nonces other
  · intro other found
    by_cases same : other = account
    · subst same
      simp only [update_self]
      exact .inr ⟨submission, phase⟩
    · simp only [update_of_ne same]
      exact inv.reached other found
  · rw [inv.counted]
    refine (countP_update_of_mem inv.enrolled.nodup mem ?_ ?_).symm
    · simp [before, phase]
    · intro other _ different
      simp [update_of_ne different]
  · intro other found
    by_cases same : other = account
    · subst same
      simp only [update_self, phase]
      rintro (first | second)
      · exact (later first).elim
      · exact unshared second
    · simp only [update_of_ne same]
      exact inv.unshared other found
  · rintro (⟨current, _⟩ | late)
    · exact summed (.inl current)
    · exact summed (.inr late)
  · intro other found
    by_cases same : other = account
    · subst same
      simp only [update_self, phase]
      exact announced
    · simp only [update_of_ne same]
      exact inv.announced other found

theorem Inv.advance (inv : Inv curve s validators ∅ number members) (enrolled : s.nonce ≠ 0)
    (ready : ∀ account ∈ members, (s.participants account).phase = next.required)
    (everyone : members.length = validators.card) (later : next ≠ .RegistrationOpen)
    (positive : 0 < phaseStartBlock) (late : next.late → SumsKeyShares curve s members) :
    Inv curve { s with ethdkgPhase := next, phaseStartBlock, numParticipants := 0 } validators ∅
      number members := by
  have proper : next.required ≠ next := by cases next <;> simp_all [Phase.required]
  refine ⟨inv.positive, ⟨inv.enrolled.nodup, inv.enrolled.mem_iff, inv.enrolled.indices⟩,
    inv.nonces, fun none => (enrolled none).elim, fun _ => .inl positive, fun account mem =>
    .inl (ready account mem), ?_, ?_, by simp, inv.unshared, ?_, inv.announced⟩
  · symm
    rw [Storage.submitted, countP_eq_zero]
    intro account mem
    simp [ready account mem, proper]
  · intro _ _
    simp [everyone]
  · rintro (⟨_, someone⟩ | phase)
    · exact (someone rfl).elim
    · exact late phase

end

section

variable {curve : Curve} {w w' v : World} {members : List Address}

theorem World.Inv.ready (inv : w.Inv curve members) (all : w.dkg.numParticipants = members.length) :
    ∀ account ∈ members, (w.participant account).phase = w.dkg.ethdkgPhase := by
  have everyone : w.dkg.submitted members = members.length := inv.counted.symm.trans all
  rw [Storage.submitted, countP_eq_length] at everyone
  intro account mem
  exact of_decide_eq_true (everyone account mem)

theorem Closed.inv (closed : Closed v next numParticipants event w')
    (inv : (v.counted numParticipants).Inv curve members) (unslashed : v.slashed = ∅)
    (enrolled : v.dkg.nonce ≠ 0) (bounded : v.number < 2 ^ 64)
    (required : next.required = v.dkg.ethdkgPhase) (later : next ≠ .RegistrationOpen)
    (everyone : numParticipants = v.validators.card → members.length = v.validators.card)
    (late : next.late → v.dkg.ethdkgPhase = .KeyShareSubmission ∧ numParticipants ≠ 0 ∨
      v.dkg.ethdkgPhase.late) : w'.Inv curve members := by
  cases closed with
  | stays others => exact inv
  | advances phaseStartBlock all starts =>
    have count := everyone all
    have ready := inv.ready (all.trans count.symm)
    have positive : 0 < phaseStartBlock := by
      have some : 0 < v.number := inv.positive
      omega
    have sums : next.late → SumsKeyShares curve (v.counted numParticipants).dkg members :=
      fun phase => inv.summed (late phase)
    unfold World.Inv at inv ⊢
    have none : (v.counted numParticipants).slashed = ∅ := unslashed
    rw [none] at inv
    have next := inv.advance enrolled (by rw [required]; exact ready) count later positive sums
    show Ethdkg.Inv curve _ v.validators v.slashed v.number members
    rw [unslashed]
    exact next

private theorem sum_map_update [DecidableEq α] [AddCommMonoid M] {items : List α}
    (nodup : items.Nodup) (mem : item ∈ items) (f : α → M) (absent : f item = 0) (value : M) :
    (items.map (Function.update f item value)).sum = (items.map f).sum + value := by
  have parts := perm_cons_erase mem
  have others : (items.erase item).map (update f item value) = (items.erase item).map f := by
    refine map_congr_left ?_
    intro other found
    rw [update_of_ne]
    rintro rfl
    exact nodup.not_mem_erase found
  rw [(parts.map _).sum_eq, (parts.map f).sum_eq, map_cons, map_cons, sum_cons, sum_cons, others,
    update_self, absent, zero_add, add_comm]

theorem unmarshalG1_zero (curve : Curve) : curve.unmarshalG1 (0, 0) = some 0 :=
  curve.unmarshalG1_eq_some.mpr curve.marshalG1_zero

section

variable (inv : w.Inv curve members)

include inv

theorem World.Inv.submission (running : Running w members phase) (submission : phase.submission)
    (mem : account ∈ members) (before : (w.participant account).phase ≠ phase)
    (participant : Participant) (mpkG1 : Point) (done : participant.phase = phase)
    (nonce : participant.nonce = (w.participant account).nonce)
    (index : participant.index = (w.participant account).index)
    (unshared : phase = .ShareDistribution → participant.keyShares = (0, 0))
    (announced : phase = .GPKJSubmission → participant.gpkj ≠ (0, 0, 0, 0))
    (summed : phase = .KeyShareSubmission ∨ phase.late →
      SumsKeyShares curve ((w.setParticipant account participant).keyed mpkG1).dkg members)
    (required : next.required = phase) (later : next ≠ .RegistrationOpen)
    (late : next.late → phase = .KeyShareSubmission ∨ phase.late)
    (closed : Closed (((w.setParticipant account participant).keyed mpkG1).emit event)
      next (w.dkg.numParticipants + 1) last w') : w'.Inv curve members := by
  obtain ⟨rfl, enrolled, bounded, unslashed, everyone⟩ := running
  have recorded := Inv.submit inv mem before submission participant mpkG1 done nonce index unshared
    announced summed
  refine closed.inv recorded unslashed enrolled bounded required later (fun _ => everyone) ?_
  intro phase
  rcases late phase with keyShares | after
  · exact .inl ⟨keyShares, Nat.succ_ne_zero _⟩
  · exact .inr after

theorem World.Inv.distributeShares
    (ran : distributeShares curve w msg encryptedShares commitments = .ok w') :
    w'.Inv curve members := by
  obtain ⟨participant, _, window, nonce, phase, shape, closed⟩ := distributeShares_ok ran
  have running := inv.submitting window (by simp) (by simp) (by simp [Phase.dispute])
  have mem : msg.sender ∈ members := (inv.enrolled.mem_iff _).mpr ⟨running.enrolled, nonce⟩
  exact inv.submission running (by simp [Phase.submission]) mem (by simp [phase]) participant
    w.dkg.mpkG1 (by rw [shape]) (by rw [shape]) (by rw [shape])
    (fun _ => by rw [shape]; exact inv.unshared _ mem (.inl phase)) (by simp) (by simp [Phase.late])
    rfl (by simp) (by simp [Phase.late]) closed

theorem World.Inv.submitGPKJ (ran : submitGPKJ w msg gpkj = .ok w') :
    w'.Inv curve members := by
  obtain ⟨participant, _, window, nonce, phase, nonzero, shape, closed⟩ := submitGPKJ_ok ran
  have running := inv.submitting window (by simp) (by simp) (by simp [Phase.dispute])
  have mem : msg.sender ∈ members := (inv.enrolled.mem_iff _).mpr ⟨running.enrolled, nonce⟩
  -- the key shares are not touched any more
  have summed : SumsKeyShares curve (w.setParticipant msg.sender participant).dkg members := by
    obtain ⟨share, shares, sum⟩ := inv.summed (.inr (by simp [window.current, Phase.late]))
    refine ⟨share, ?_, sum⟩
    intro account found
    by_cases same : account = msg.sender
    · subst same
      simpa [World.setParticipant, World.participant, shape] using shares _ found
    · simpa [World.setParticipant, same] using shares _ found
  exact inv.submission running (by simp [Phase.submission]) mem (by simp [phase]) participant
    w.dkg.mpkG1 (by rw [shape]) (by rw [shape]) (by rw [shape]) (by simp)
    (fun _ => by rw [shape]; exact nonzero) (fun _ => summed) rfl (by simp) (by simp [Phase.late])
    closed

theorem World.Inv.proceed (running : Running w members phase) (uncounted : ¬ phase.submission)
    (required : next.required = phase.required) (later : next ≠ .RegistrationOpen)
    (late : next.late → phase.late) : (w.advanced next (w.number % 2 ^ 64)).Inv curve members := by
  obtain ⟨rfl, enrolled, bounded, unslashed, everyone⟩ := running
  have ready : ∀ account ∈ members, (w.participant account).phase = next.required := by
    intro account mem
    rcases inv.reached account mem with last | ⟨submission, _⟩
    · rw [last, required]
    · exact (uncounted submission).elim
  have positive : 0 < w.number % 2 ^ 64 := by
    rw [Nat.mod_eq_of_lt bounded]
    exact inv.positive
  unfold World.Inv at inv ⊢
  rw [unslashed] at inv
  show Ethdkg.Inv curve _ w.validators w.slashed w.number members
  rw [unslashed]
  exact inv.advance enrolled ready everyone later positive (fun phase =>
    inv.summed (.inr (late phase)))

theorem World.Inv.keySharesOpen (opens : KeySharesOpen w v) :
    v.Inv curve members ∧ Running v members .KeyShareSubmission := by
  cases opens with
  | already window =>
    exact ⟨inv, inv.submitting window (by simp) (by simp) (by simp [Phase.dispute])⟩
  | opens window undisputed =>
    have running := inv.awaiting window (by simp) (by simp) undisputed
    exact ⟨inv.proceed running (by simp [Phase.submission]) rfl (by simp) (by simp [Phase.late]),
      rfl, running.enrolled, running.bounded, running.unslashed, running.everyone⟩

end

theorem World.Inv.partialSum (inv : v.Inv curve members)
    (current : v.dkg.ethdkgPhase = .KeyShareSubmission) :
    ∃ share : Address → curve.G1,
      (∀ account ∈ members, curve.unmarshalG1 (v.participant account).keyShares =
        some (share account)) ∧
      curve.unmarshalG1 (if 1 < v.dkg.numParticipants + 1 then v.dkg.mpkG1 else (0, 0)) =
        some (members.map share).sum := by
  by_cases first : v.dkg.numParticipants = 0
  · refine ⟨fun _ => 0, ?_, by simp [first, unmarshalG1_zero]⟩
    intro account mem
    have missing : (v.participant account).phase ≠ .KeyShareSubmission := by
      have count := inv.counted.symm.trans first
      rw [Storage.submitted, countP_eq_zero] at count
      simpa [current] using count account mem
    have unshared := inv.unshared account mem
    rcases inv.reached account mem with last | ⟨_, last⟩
    · rw [current] at last
      have zero : (v.participant account).keyShares = (0, 0) := unshared (.inr last)
      rw [zero, unmarshalG1_zero]
    · exact (missing (last.trans current)).elim
  · have more : 1 < v.dkg.numParticipants + 1 := by omega
    rw [if_pos more]
    exact inv.summed (.inl ⟨current, first⟩)

section

variable (inv : w.Inv curve members)

include inv

theorem World.Inv.submitKeyShare
    (ran : submitKeyShare curve w msg keyShareG1 proof keyShareG2 = .ok w') :
    w'.Inv curve members := by
  obtain ⟨v, mpkG1, participant, _, opens, nonce, phase, shape, sum, closed⟩ :=
    submitKeyShare_ok ran
  obtain ⟨inv, running⟩ := inv.keySharesOpen opens
  have mem : msg.sender ∈ members := (inv.enrolled.mem_iff _).mpr ⟨running.enrolled, nonce⟩
  have summed : SumsKeyShares curve ((v.setParticipant msg.sender participant).keyed mpkG1).dkg
      members := by
    obtain ⟨share, shares, total⟩ := inv.partialSum running.current
    obtain ⟨P, Q, before, added, result⟩ := bn128Add_ok_iff.mp sum
    have own : share msg.sender = 0 := by
      have missing := shares msg.sender mem
      have zero : (v.participant msg.sender).keyShares = (0, 0) :=
        inv.unshared msg.sender mem (.inr phase)
      rw [zero, unmarshalG1_zero] at missing
      exact (Option.some.inj missing).symm
    refine ⟨update share msg.sender Q, ?_, ?_⟩
    · intro account found
      by_cases same : account = msg.sender
      · subst same
        simpa [World.setParticipant, World.keyed, shape] using added
      · simpa [World.setParticipant, World.keyed, same] using shares account found
    · rw [sum_map_update inv.enrolled.nodup mem share own Q,
        ← Option.some.inj (before.symm.trans total)]
      exact curve.unmarshalG1_eq_some.mpr result
  exact inv.submission running (by simp [Phase.submission]) mem (by simp [phase]) participant mpkG1
    (by rw [shape]) (by rw [shape]) (by rw [shape]) (by simp) (by simp) (fun _ =>
    summed) rfl (by simp) (by simp [Phase.late]) closed

section

variable (current : w.dkg.ethdkgPhase = .RegistrationOpen)

include current

theorem World.Inv.registered_phase :
    ∀ account ∈ members, (w.participant account).phase = .RegistrationOpen := by
  intro account mem
  rcases inv.reached account mem with last | ⟨_, last⟩
  · rw [last, current]
    rfl
  · exact last.trans current

theorem World.Inv.registered_count :
    w.dkg.numParticipants = members.length := by
  rw [inv.counted, Storage.submitted, countP_eq_length]
  intro account mem
  simp [current, inv.registered_phase current account mem]

theorem World.Inv.enrol
    (fresh : (w.participant account).nonce < w.dkg.nonce) (publicKey : Point) :
    ((w.setParticipant account
        { publicKey, index := w.dkg.numParticipants + 1, nonce := w.dkg.nonce,
          phase := .RegistrationOpen }).counted
      (w.dkg.numParticipants + 1)).Inv curve (members ++ [account]) := by
  have enrolled : w.dkg.nonce ≠ 0 := by omega
  have absent : account ∉ members := by
    intro mem
    exact fresh.ne ((inv.enrolled.mem_iff account).mp mem).2
  have count := inv.registered_count current
  have others : ∀ other ∈ members, other ≠ account := by
    rintro other mem rfl
    exact absent mem
  refine ⟨inv.positive, ⟨?_, ?_, ?_⟩, ?_, fun none => (enrolled none).elim, inv.started, ?_, ?_, ?_,
    inv.blamed, ?_, ?_, ?_⟩
  · rw [nodup_append]
    refine ⟨inv.enrolled.nodup, nodup_singleton _, ?_⟩
    intro other mem last found
    rw [mem_singleton.mp found]
    exact others other mem
  · intro other
    rw [mem_append, mem_singleton, inv.enrolled.mem_iff]
    by_cases same : other = account
    · subst same
      simp [Storage.participating, World.counted, World.setParticipant, enrolled]
    · simp [Storage.participating, World.counted, World.setParticipant, same]
  · rw [map_append, length_append, length_singleton, range'_concat, ← inv.enrolled.indices]
    congr 1
    · refine map_congr_left ?_
      intro other mem
      simp [World.counted, World.setParticipant, others other mem]
    · simp [World.counted, World.setParticipant, count, Nat.add_comm]
  · intro other
    by_cases same : other = account
    · subst same
      simp [World.counted, World.setParticipant]
    · simpa [World.counted, World.setParticipant, same] using inv.nonces other
  · intro other mem
    left
    rcases mem_append.mp mem with old | new
    · simpa [World.counted, World.setParticipant, others other old, current, Phase.required] using
        inv.registered_phase current other old
    · simp [World.counted, World.setParticipant, mem_singleton.mp new, current, Phase.required]
  · symm
    rw [Storage.submitted, countP_eq_length.mpr]
    · simp [World.counted, count]
    · intro other mem
      rcases mem_append.mp mem with old | new
      · simpa [World.counted, World.setParticipant, others other old, current] using
          inv.registered_phase current other old
      · simp [World.counted, World.setParticipant, mem_singleton.mp new, current]
  · intro later
    exact (later current).elim
  · intro other mem
    rcases mem_append.mp mem with old | new
    · simpa [World.counted, World.setParticipant, others other old] using inv.unshared other old
    · simp [World.counted, World.setParticipant, mem_singleton.mp new]
  · simp [World.counted, World.setParticipant, current, Phase.late]
  · intro other mem
    rcases mem_append.mp mem with old | new
    · simpa [World.counted, World.setParticipant, others other old] using inv.announced other old
    · simp [World.counted, World.setParticipant, mem_singleton.mp new]

end

theorem World.Inv.register (ran : register w msg publicKey = .ok w') :
    w'.Inv curve (members ++ [msg.sender]) := by
  obtain ⟨_, window, fresh, _, closed⟩ := register_ok ran
  have enrolled : w.dkg.nonce ≠ 0 := by omega
  have count := inv.registered_count window.current
  refine closed.inv (inv.enrol window.current fresh publicKey)
    (inv.unslashed window (by simp [Phase.dispute])) enrolled (window.inTime.trans window.bounded)
    window.current.symm (by simp) ?_ (by simp [Phase.late])
  intro all
  rw [length_append, length_singleton, ← count]
  exact all

end

theorem Inv.rekey (inv : Inv curve s validators slashed number members) (masterPublicKey : Twist)
    (masterPublicKeyHash : Bytes32) (customAliceNetHeight : ℕ) :
    Inv curve { s with masterPublicKey, masterPublicKeyHash, customAliceNetHeight } validators
      slashed number members :=
  ⟨inv.positive, ⟨inv.enrolled.nodup, inv.enrolled.mem_iff, inv.enrolled.indices⟩, inv.nonces,
    inv.dormant, inv.started,
    inv.reached, inv.counted, inv.populated, inv.blamed, inv.unshared, inv.summed, inv.announced⟩

section

variable (inv : w.Inv curve members)

include inv

theorem World.Inv.submitMasterPublicKey (msg : Msg)
    (ran : submitMasterPublicKey curve w msg masterPublicKey = .ok w') : w'.Inv curve members := by
  obtain ⟨masterPublicKeyHash, window, rfl⟩ := submitMasterPublicKey_ok msg ran
  have running := inv.submitting window (by simp) (by simp) (by simp [Phase.dispute])
  have moved : (w.advanced .GPKJSubmission (w.number % 2 ^ 64)).Inv curve members :=
    inv.proceed running (by simp [Phase.submission]) rfl (by simp) (by simp [Phase.late])
  exact Inv.rekey moved masterPublicKey masterPublicKeyHash w.dkg.customAliceNetHeight

theorem World.Inv.completing (window : Awaiting w .DisputeGPKJSubmission)
    (undisputed : w.dkg.badParticipants = 0) :
    Running w members .DisputeGPKJSubmission ∧
      ∀ account ∈ members, (w.participant account).phase = .GPKJSubmission := by
  refine ⟨inv.awaiting window (by simp) (by simp) undisputed, ?_⟩
  intro account mem
  rcases inv.reached account mem with last | ⟨submission, _⟩
  · rw [last, window.current]
    rfl
  · simp [window.current, Phase.submission] at submission

theorem World.Inv.complete (ran : complete w msg = .ok w') : w'.Inv curve members := by
  obtain ⟨aliceNetHeight, window, undisputed, rfl⟩ := complete_ok ran
  obtain ⟨running, _⟩ := inv.completing window undisputed
  have moved : (w.advanced .Completion (w.number % 2 ^ 64)).Inv curve members :=
    inv.proceed running (by simp [Phase.submission]) rfl (by simp) (by simp [Phase.late])
  exact Inv.rekey moved w.dkg.masterPublicKey w.dkg.masterPublicKeyHash 0

theorem World.Inv.paused (ethHeight aliceNetHeight : ℕ) :
    (w.paused ethHeight aliceNetHeight).Inv curve members :=
  Inv.rekey inv w.dkg.masterPublicKey w.dkg.masterPublicKeyHash aliceNetHeight

theorem World.Inv.initializeETHDKG
    (ran : ValidatorPool.initializeETHDKG contract w msg = .ok w') : w'.Inv curve [] := by
  obtain ⟨_, _, rfl⟩ := initializeETHDKG_ok ran
  have earlier : ∀ account, (w.participant account).nonce ≠ w.dkg.nonce + 1 := by
    intro account
    exact ((inv.nonces account).trans_lt (Nat.lt_succ_self _)).ne
  refine ⟨inv.positive, ⟨nodup_nil, ?_, rfl⟩, ?_, by simp, ?_, by simp,
    rfl, by simp, by simp, by simp, ?_, by simp⟩
  · intro account
    simpa [Storage.participating] using earlier account
  · intro account
    exact (inv.nonces account).trans (Nat.le_succ _)
  · intro _
    have positive : 0 < w.number := inv.positive
    by_cases bounded : w.number < 2 ^ 64
    · left
      rwa [Nat.mod_eq_of_lt bounded]
    · right
      exact not_lt.mp bounded
  · simp [Phase.late]

theorem World.Inv.accused (accusing : Accusing w) (accused : Accused w w' accounts) :
    w'.Inv curve members := by
  obtain ⟨badParticipants, customAliceNetHeight, same⟩ := accused.dkg
  have blame : w'.dkg.badParticipants = badParticipants := by rw [same]
  unfold World.Inv
  rw [same, accused.validators, accused.slashed, accused.number]
  refine ⟨inv.positive, ⟨inv.enrolled.nodup, inv.enrolled.mem_iff, inv.enrolled.indices⟩,
    inv.nonces, inv.dormant, inv.started, inv.reached, inv.counted, ?_, ?_, inv.unshared,
    inv.summed, inv.announced⟩
  · intro later _
    obtain ⟨count, members, apart⟩ := inv.populated later accusing.not_over
    have fresh : Disjoint w.slashed accounts := apart.mono_right accused.active
    refine ⟨?_, ?_, ?_⟩
    · rw [Finset.card_union_of_disjoint fresh, Finset.card_sdiff_of_subset accused.active, count]
      have fits := Finset.card_le_card accused.active
      omega
    · intro account mem
      rcases Finset.mem_union.mp mem with earlier | now
      · exact members account earlier
      · exact (inv.enrolled.mem_iff account).mpr (accused.participating later account now)
    · rw [Finset.disjoint_union_left]
      exact ⟨apart.mono_right Finset.sdiff_subset, Finset.disjoint_sdiff⟩
  · intro someone
    refine ⟨?_, ?_⟩
    · show badParticipants ≠ 0
      rw [← blame]
      apply accused.blamed
      rcases Finset.union_nonempty.mp someone with earlier | now
      · exact .inr (inv.blamed earlier).1
      · exact .inl now
    · rcases accusing.window with ⟨dispute, _⟩ | ⟨_, awaiting⟩
      · exact .inl dispute
      · exact .inr awaiting.opened

theorem World.Inv.accusing_awaiting (window : Awaiting w phase)
    (submission : phase.submission) (enrolled : w.dkg.nonce ≠ 0) : Accusing w := by
  have bounded : w.number < 2 ^ 64 := window.inTime.trans window.bounded
  obtain rfl := window.current
  exact ⟨enrolled, inv.started_of enrolled bounded, .inr ⟨submission, window⟩⟩

theorem World.Inv.accusing_dispute (window : Submitting w phase ∨ Awaiting w earlier)
    (isDispute : phase.dispute) (isSubmission : earlier.submission)
    (later : earlier ≠ .RegistrationOpen) : Accusing w := by
  rcases window with submitting | awaiting
  · have enrolled := inv.enrolled_of submitting.current (by rcases isDispute with
      rfl | rfl <;> simp)
    have bounded : w.number < 2 ^ 64 := submitting.inTime.trans submitting.bounded
    obtain rfl := submitting.current
    exact ⟨enrolled, inv.started_of enrolled bounded, .inl ⟨isDispute, submitting⟩⟩
  · exact inv.accusing_awaiting awaiting isSubmission (inv.enrolled_of awaiting.current later)

end

private theorem accuseAll_window (ran : accuseAll w msg phase check dishonestAddresses = .ok w') :
    Awaiting w phase := by
  obtain ⟨_, window, _⟩ := bind_ok_iff.mp ran
  exact (accusationWindow_ok_iff.mp window).2

def Call.accuses : Call → Bool
  | .accuseParticipantNotRegistered _ => true
  | .accuseParticipantDidNotDistributeShares _ => true
  | .accuseParticipantDistributedBadShares .. => true
  | .accuseParticipantDidNotSubmitKeyShares _ => true
  | .accuseParticipantDidNotSubmitGPKJ _ => true
  | .accuseParticipantSubmittedBadGPKJ .. => true
  | _ => false

theorem Closed.grows (closed : Closed v next numParticipants event w') :
    v.events <+: w'.events := by
  cases closed with
  | stays _ => exact prefix_rfl
  | advances _ _ _ => exact prefix_append _ _

section

variable (inv : w.Inv curve members)

include inv

theorem World.Inv.notRegistered_dormant (dormant : w.dkg.nonce = 0)
    (ran : accuseParticipantNotRegistered w msg dishonestAddresses = .ok w') : w' = w := by
  simp only [accuseParticipantNotRegistered, accuseAll, ok_iff] at ran
  obtain ⟨_, _, ⟨v, badParticipants⟩, each, rfl⟩ := ran
  cases dishonestAddresses with
  | nil =>
    obtain ⟨rfl, rfl⟩ := each
    rfl
  | cons dishonest rest =>
    simp only [accuseEach, checkNotRegistered, ok_iff] at each
    obtain ⟨_, _, _, unregistered, _⟩ := each
    have bound := inv.nonces dishonest
    rw [dormant] at bound unregistered
    exact (unregistered (Nat.le_zero.mp bound)).elim

theorem World.Inv.accusation (accuses : call.accuses = true)
    (ran : exec contract curve w msg call = .ok w') : w' = w ∨ Accusing w := by
  cases call with
  | accuseParticipantNotRegistered dishonestAddresses =>
    by_cases dormant : w.dkg.nonce = 0
    · exact .inl (inv.notRegistered_dormant dormant ran)
    · exact .inr (inv.accusing_awaiting (accuseAll_window ran) (by simp [Phase.submission]) dormant)
  | accuseParticipantDidNotDistributeShares dishonestAddresses
  | accuseParticipantDidNotSubmitKeyShares dishonestAddresses
  | accuseParticipantDidNotSubmitGPKJ dishonestAddresses =>
    have window := accuseAll_window ran
    exact .inr (inv.accusing_awaiting window (by simp [Phase.submission])
      (inv.enrolled_of window.current (by simp)))
  | accuseParticipantDistributedBadShares | accuseParticipantSubmittedBadGPKJ =>
    simp only [exec, accuseParticipantDistributedBadShares, accuseParticipantSubmittedBadGPKJ,
      bind_ok_iff] at ran
    obtain ⟨_, _, _, window, _⟩ := ran
    exact .inr (inv.accusing_dispute ((disputeWindow_ok_iff.mp window).imp_right And.right)
      (by simp [Phase.dispute]) (by simp [Phase.submission]) (by simp))
  | _ => cases accuses

theorem World.Inv.repopulate {validators : Finset Address}
    (idle : isETHDKGRunning w.dkg w.number = .ok false) :
    Ethdkg.Inv curve w.dkg validators w.slashed w.number members := by
  have ended : Over w.dkg w.number := (over_iff_of_running idle).mpr rfl
  exact ⟨inv.positive, inv.enrolled, inv.nonces, inv.dormant, inv.started, inv.reached, inv.counted,
    fun _ running => (running ended).elim, inv.blamed, inv.unshared, inv.summed, inv.announced⟩

theorem World.Inv.step (step : Step contract curve (Nested contract curve depth) w w') :
    ∃ members', w'.Inv curve members' := by
  have again := step
  cases step with
  | call msg call reaction ran =>
    cases call with
    | initializeETHDKG => exact ⟨_, inv.initializeETHDKG ran⟩
    | pauseConsensusOnArbitraryHeight aliceNetHeight =>
      obtain rfl := pauseConsensusOnArbitraryHeight_ok ran
      exact ⟨_, inv.paused _ _⟩
    | register publicKey => exact ⟨_, inv.register ran⟩
    | distributeShares encryptedShares commitments => exact ⟨_, inv.distributeShares ran⟩
    | submitKeyShare keyShareG1 proof keyShareG2 => exact ⟨_, inv.submitKeyShare ran⟩
    | submitMasterPublicKey masterPublicKey => exact ⟨_, inv.submitMasterPublicKey msg ran⟩
    | submitGPKJ gpkj => exact ⟨_, inv.submitGPKJ ran⟩
    | complete => exact ⟨_, inv.complete ran⟩
    | _ =>
      rcases inv.accusation rfl ran with rfl | accusing
      · exact ⟨_, inv⟩
      · obtain ⟨accounts, accused⟩ := accusing.step (nested_accuses contract curve depth) again
        exact ⟨_, inv.accused accusing accused⟩
  | joins account absent idle => exact ⟨members, inv.repopulate idle⟩
  | leaves account mem idle => exact ⟨members, inv.repopulate idle⟩
  | snapshot maintenance running => exact ⟨members, inv⟩

theorem World.Inv.grows (step : Step contract curve (Nested contract curve depth) w w') :
    w.events <+: w'.events := by
  have again := step
  cases step with
  | call msg call reaction ran =>
    cases call with
    | initializeETHDKG =>
      obtain ⟨_, _, rfl⟩ := initializeETHDKG_ok ran
      exact prefix_append _ _
    | pauseConsensusOnArbitraryHeight aliceNetHeight =>
      obtain rfl := pauseConsensusOnArbitraryHeight_ok ran
      exact prefix_append _ _
    | register publicKey =>
      obtain ⟨_, _, _, _, closed⟩ := register_ok ran
      exact (prefix_append _ _).trans closed.grows
    | distributeShares encryptedShares commitments =>
      obtain ⟨_, _, _, _, _, _, closed⟩ := distributeShares_ok ran
      exact (prefix_append _ _).trans closed.grows
    | submitKeyShare keyShareG1 proof keyShareG2 =>
      obtain ⟨v, _, _, _, opens, _, _, _, _, closed⟩ := submitKeyShare_ok ran
      have same : v.events = w.events := by cases opens <;> rfl
      rw [← same]
      exact (prefix_append _ _).trans closed.grows
    | submitMasterPublicKey masterPublicKey =>
      obtain ⟨_, _, rfl⟩ := submitMasterPublicKey_ok msg ran
      exact prefix_append _ _
    | submitGPKJ gpkj =>
      obtain ⟨_, _, _, _, _, _, _, closed⟩ := submitGPKJ_ok ran
      exact (prefix_append _ _).trans closed.grows
    | complete =>
      obtain ⟨_, _, _, rfl⟩ := complete_ok ran
      exact prefix_append _ _
    | _ =>
      rcases inv.accusation rfl ran with rfl | accusing
      · exact prefix_rfl
      · obtain ⟨_, accused⟩ := accusing.step (nested_accuses contract curve depth) again
        obtain ⟨_, events, _⟩ := accused.events
        exact events ▸ prefix_append _ _
  | joins account absent idle => exact prefix_append _ _
  | leaves account mem idle => exact prefix_append _ _
  | snapshot maintenance running => exact prefix_rfl

theorem World.Inv.block {number : ℕ} (later : w.number ≤ number) :
    World.Inv curve { w with number } members := by
  refine ⟨inv.positive.trans_le later, inv.enrolled, inv.nonces, inv.dormant, ?_, inv.reached,
    inv.counted, ?_, ?_, inv.unshared, inv.summed, inv.announced⟩
  · intro enrolled
    exact (inv.started enrolled).imp_right (fun far => far.trans later)
  · intro phase running
    exact inv.populated phase (fun ended => running (ended.later later))
  · intro someone
    obtain ⟨bad, window⟩ := inv.blamed someone
    exact ⟨bad, window.imp_right (fun expired => expired.trans later)⟩

end

theorem Run.inv (run : Run contract curve w) : ∃ members, w.Inv curve members := by
  induction run with
  | start phaseLength confirmationLength epoch number positive =>
    refine ⟨[], positive, ⟨nodup_nil, ?_, rfl⟩, ?_, fun _ => rfl, ?_, ?_, rfl, ?_, ?_, ?_, ?_, ?_⟩
    all_goals simp [deployed, Storage.participating, Phase.late]
  | step _ _ step ih =>
    obtain ⟨members, inv⟩ := ih
    exact inv.step step
  | block _ number later ih =>
    obtain ⟨members, inv⟩ := ih
    exact ⟨members, inv.block later⟩

/-- In every reachable state the participants of the round have the indices `1`, `2`, …; while the
round is running they are the validators and those that were slashed; the counter counts who has
completed the current phase; the stored sum is the sum of the key shares; and a round is completed
only if everyone has submitted and nobody was slashed. -/
theorem Run.round_invariant (run : Run contract curve w) : ∃ members : List Address,
    Enrolled w.dkg members ∧
    (w.dkg.ethdkgPhase ≠ .RegistrationOpen → isETHDKGRunning w.dkg w.number = .ok true →
      members.length = w.validators.card + w.slashed.card ∧ ∀ account ∈ w.slashed,
        account ∈ members) ∧
    w.dkg.numParticipants = w.dkg.submitted members ∧
    (w.dkg.ethdkgPhase.late → SumsKeyShares curve w.dkg members) ∧
    ∀ msg w', Ethdkg.complete w msg = .ok w' → w.slashed = ∅ ∧ ∀ account ∈ members,
      (w.participant account).phase = .GPKJSubmission ∧ (w.participant account).gpkj ≠
        (0, 0, 0, 0) := by
  obtain ⟨members, inv⟩ := run.inv
  refine ⟨members, inv.enrolled, ?_, inv.counted, fun late => inv.summed (.inr late), ?_⟩
  · intro later running
    have alive : ¬ Over w.dkg w.number := by simp [over_iff_of_running running]
    obtain ⟨count, slashed, _⟩ := inv.populated later alive
    exact ⟨count, slashed⟩
  · intro msg w' ran
    obtain ⟨_, window, undisputed, _⟩ := complete_ok ran
    obtain ⟨running, submitted⟩ := inv.completing window undisputed
    exact ⟨running.unslashed, fun account mem => ⟨submitted account mem, inv.announced account mem
      (submitted account mem)⟩⟩

end

def sampleContract : Contract := ⟨90, 91⟩

def sampleMsg (sender : Address) : Msg := ⟨sender, fun _ => true, id, 0, 0, 0⟩

def sampleJoined : World :=
  [1, 2, 3, 4].foldl (fun w account =>
    { w with validators := insert account w.validators }.emit (.ValidatorJoined account))
      (deployed 40 6 1 100)

def sampleCalls : List (Address × Call) :=
  (90, .initializeETHDKG) :: [1, 2, 3, 4].map fun account => (account, .register (1, 2))

def sampleRegistered : World :=
  sampleCalls.foldl (fun w call => transact sampleContract Crypto.Scalars.curve w (sampleMsg call.1)
    call.2) sampleJoined

theorem sampleJoined_run : Run sampleContract Crypto.Scalars.curve sampleJoined := by
  have empty : Run sampleContract Crypto.Scalars.curve (deployed 40 6 1 100) :=
    .start 40 6 1 100 (by decide)
  have one := empty.step 0 (.joins 1 (by decide) rfl)
  have two := one.step 0 (.joins 2 (by decide) rfl)
  have three := two.step 0 (.joins 3 (by decide) rfl)
  exact three.step 0 (.joins 4 (by decide) rfl)

theorem sampleRegistered_run : Run sampleContract Crypto.Scalars.curve sampleRegistered := by
  refine foldlRecOn sampleCalls _ sampleJoined_run ?_
  intro w run call _
  exact run.transact _ _ _ rfl _

theorem Run.round_invariant_registered : sampleRegistered.dkg.ethdkgPhase = .ShareDistribution ∧
    ∃ members : List Address, Enrolled sampleRegistered.dkg members ∧ members.length = 4 := by
  have phase : sampleRegistered.dkg.ethdkgPhase = .ShareDistribution := by decide +kernel
  obtain ⟨members, enrolled, populated, _⟩ := Run.round_invariant sampleRegistered_run
  refine ⟨phase, members, enrolled, ?_⟩
  rw [(populated (by simp [phase]) (by decide +kernel)).1]
  decide +kernel

theorem World.Inv.exec_over (inv : w.Inv curve members) (ended : Over w.dkg w.number)
    (ran : exec contract curve w msg call = .ok w') :
    call = .initializeETHDKG ∨ w' = w ∨
      ∃ ethHeight aliceNetHeight, w' = w.paused ethHeight aliceNetHeight := by
  have closed : ∀ {phase}, phase ≠ .RegistrationOpen ∧ phase ≠ .Completion →
      ¬ (Submitting w phase ∨ Awaiting w phase ∧ w.dkg.badParticipants = 0) := by
    rintro phase ⟨later, unfinished⟩ (window | ⟨window, undisputed⟩)
    · exact inv.alive window (inv.enrolled_of window.current later) unfinished ended
    · have started := inv.started_of (inv.enrolled_of window.current later)
        (window.inTime.trans window.bounded)
      exact window.not_over started unfinished (fun _ => undisputed) ended
  cases call with
  | initializeETHDKG => exact .inl rfl
  | pauseConsensusOnArbitraryHeight aliceNetHeight =>
    exact .inr (.inr ⟨_, _, pauseConsensusOnArbitraryHeight_ok ran⟩)
  | register =>
    obtain ⟨_, window, fresh, _⟩ := register_ok ran
    exact absurd ended (inv.alive window (Nat.ne_zero_of_lt fresh) (by simp))
  | distributeShares =>
    obtain ⟨_, _, window, _⟩ := distributeShares_ok ran
    exact absurd (.inl window) (closed (by simp))
  | submitKeyShare =>
    obtain ⟨_, _, _, _, opens, _⟩ := submitKeyShare_ok ran
    cases opens with
    | already window => exact absurd (.inl window) (closed (by simp))
    | opens window undisputed => exact absurd (.inr ⟨window, undisputed⟩) (closed (by simp))
  | submitMasterPublicKey =>
    obtain ⟨_, window, _⟩ := submitMasterPublicKey_ok msg ran
    exact absurd (.inl window) (closed (by simp))
  | submitGPKJ =>
    obtain ⟨_, _, window, _⟩ := submitGPKJ_ok ran
    exact absurd (.inl window) (closed (by simp))
  | complete =>
    obtain ⟨_, window, undisputed, _⟩ := complete_ok ran
    exact absurd (.inr ⟨window, undisputed⟩) (closed (by simp))
  | _ =>
    have unaccused := (inv.accusation rfl ran).resolve_right
      fun accusing => accusing.not_over ended
    exact .inr (.inl unaccused)

inductive Continues (contract : Contract) (curve : Curve) : World → World → Prop
  | step (step : Step contract curve (Nested contract curve depth) w w')
      (sameRound : w'.dkg.nonce = w.dkg.nonce) : Continues contract curve w w'
  | block (number : ℕ) (later : w.number ≤ number) : Continues contract curve w { w with number }
  | migrateValidators (unopened : w.dkg.nonce = 0) (v : World) : Continues contract curve w v

/-- What a round that is over leaves behind -/
structure Frozen (w v : World) : Prop where
  dkg : v.dkg = { w.dkg with customAliceNetHeight := v.dkg.customAliceNetHeight }
  slashed : v.slashed = w.slashed

/-- From the first round on, a round that is over stays as it is until the next one is opened, but
for the height that the factory may set. Nobody is slashed meanwhile, however calls are nested. -/
theorem Run.over_frozen (run : Run contract curve w) (opened : w.dkg.nonce ≠ 0)
    (idle : isETHDKGRunning w.dkg w.number = .ok false)
    (continues : Relation.ReflTransGen (Continues contract curve) w v) : Frozen w v := by
  suffices frozen : (∃ members, v.Inv curve members) ∧ Over v.dkg v.number ∧ Frozen w v from
    frozen.2.2
  induction continues with
  | refl => exact ⟨run.inv, (over_iff_of_running idle).mpr rfl, rfl, rfl⟩
  | tail _ next ih =>
    obtain ⟨⟨_, inv⟩, ended, same⟩ := ih
    cases next with
    | block number later => exact ⟨⟨_, inv.block later⟩, ended.later later, same.dkg, same.slashed⟩
    | migrateValidators unopened =>
      rw [same.dkg] at unopened
      exact absurd unopened opened
    | step step sameRound =>
      refine ⟨inv.step step, ?_⟩
      cases step with
      | call msg call reaction ran =>
        rcases inv.exec_over ended ran with rfl | rfl | ⟨_, height, rfl⟩
        · obtain ⟨_, _, rfl⟩ := initializeETHDKG_ok ran
          exact absurd sameRound (Nat.succ_ne_self _)
        · exact ⟨ended, same⟩
        · exact ⟨ended, congrArg (fun s : Storage => { s with customAliceNetHeight := height })
            same.dkg,
            same.slashed⟩
      | _ => exact ⟨ended, same.dkg, same.slashed⟩

theorem Run.over_frozen_registered : isETHDKGRunning sampleRegistered.dkg 300 = .ok false ∧
    ∀ v, Relation.ReflTransGen (Continues sampleContract Crypto.Scalars.curve)
      { sampleRegistered with number := 300 } v → Frozen { sampleRegistered with
        number := 300 } v := by
  have idle : isETHDKGRunning sampleRegistered.dkg 300 = .ok false := by decide +kernel
  exact ⟨idle, fun _ => Run.over_frozen (sampleRegistered_run.block 300 (by decide +kernel))
    (by decide +kernel) idle⟩

end AliceNet.Bridge.Ethdkg
