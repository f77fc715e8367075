import AliceNet.Bridge.Ethdkg

/-! What a successful call of the key generation has found and done. -/

namespace AliceNet.Bridge.Ethdkg

open Outcome Word
open Crypto (Curve Point Twist)
open Crypto.CryptoLibrary
open List

/-- The first window of a phase -/
structure Submitting (w : World) (phase : Phase) : Prop where
  current : w.dkg.ethdkgPhase = phase
  opened : w.dkg.phaseStartBlock ≤ w.number
  inTime : w.number < w.dkg.phaseStartBlock + w.dkg.phaseLength
  bounded : w.dkg.phaseStartBlock + w.dkg.phaseLength < 2 ^ 64

/-- The second window of a phase -/
structure Awaiting (w : World) (phase : Phase) : Prop where
  current : w.dkg.ethdkgPhase = phase
  opened : w.dkg.phaseStartBlock + w.dkg.phaseLength ≤ w.number
  inTime : w.number < w.dkg.phaseStartBlock + 2 * w.dkg.phaseLength
  bounded : w.dkg.phaseStartBlock + 2 * w.dkg.phaseLength < 2 ^ 64

theorem phaseEnd_ok_iff : phaseEnd s = .ok stop ↔
    s.phaseStartBlock + s.phaseLength < 2 ^ 64 ∧ s.phaseStartBlock + s.phaseLength = stop :=
  add_ok_iff

theorem disputeEnd_ok_iff : disputeEnd s = .ok stop ↔
    2 * s.phaseLength < 2 ^ 16 ∧ s.phaseStartBlock + 2 * s.phaseLength < 2 ^ 64 ∧
      s.phaseStartBlock + 2 * s.phaseLength = stop := by
  simp only [disputeEnd, add64, bind_ok_iff, mul_ok_iff, add_ok_iff]
  constructor
  · rintro ⟨_, ⟨small, rfl⟩, bounded, rfl⟩
    exact ⟨small, bounded, rfl⟩
  · rintro ⟨small, bounded, rfl⟩
    exact ⟨_, ⟨small, rfl⟩, bounded, rfl⟩

theorem submissionWindow_ok_iff : submissionWindow w phase = .ok result ↔ Submitting w phase := by
  simp only [submissionWindow, ok_iff, phaseEnd_ok_iff]
  constructor
  · rintro ⟨_, ⟨bounded, rfl⟩, current, opened, inTime⟩
    exact ⟨current, opened, inTime, bounded⟩
  · rintro ⟨current, opened, inTime, bounded⟩
    exact ⟨_, ⟨bounded, rfl⟩, current, opened, inTime⟩

theorem accusationWindow_ok_iff :
    accusationWindow w phase = .ok result ↔ 2 * w.dkg.phaseLength < 2 ^ 16 ∧ Awaiting w phase := by
  simp only [accusationWindow, ok_iff, phaseEnd_ok_iff, disputeEnd_ok_iff]
  constructor
  · rintro ⟨_, ⟨_, rfl⟩, _, ⟨short, bounded, rfl⟩, current, opened, inTime⟩
    exact ⟨short, current, opened, inTime, bounded⟩
  · rintro ⟨short, current, opened, inTime, bounded⟩
    exact ⟨_, ⟨by omega, rfl⟩, _, ⟨short, bounded, rfl⟩, current, opened, inTime⟩

theorem disputeWindow_ok_iff : disputeWindow w dispute submission = .ok result ↔
    Submitting w dispute ∨ 2 * w.dkg.phaseLength < 2 ^ 16 ∧ Awaiting w submission := by
  simp only [disputeWindow, bind_ok_iff, phaseEnd_ok_iff]
  constructor
  · rintro ⟨_, ⟨bounded, rfl⟩, ran⟩
    split at ran
    · rename_i window
      exact .inl ⟨window.1, window.2.1, window.2.2, bounded⟩
    · simp only [ok_iff, disputeEnd_ok_iff] at ran
      obtain ⟨_, ⟨short, far, rfl⟩, current, opened, inTime⟩ := ran
      exact .inr ⟨short, current, opened, inTime, far⟩
  · rintro (⟨current, opened, inTime, bounded⟩ | ⟨short, current, opened, inTime, far⟩)
    · exact ⟨_, ⟨bounded, rfl⟩, if_pos ⟨current, opened, inTime⟩⟩
    · refine ⟨_, ⟨by omega, rfl⟩, ?_⟩
      rw [if_neg (by omega)]
      simp only [ok_iff, disputeEnd_ok_iff]
      exact ⟨_, ⟨short, far, rfl⟩, current, opened, inTime⟩

/-- The round has come to its end, or none was started. -/
def Over (s : Storage) (number : ℕ) : Prop :=
  s.phaseStartBlock = 0 ∨ s.ethdkgPhase = .Completion ∨ s.phaseStartBlock + 2 * s.phaseLength ≤
    number ∨ ((s.ethdkgPhase = .DisputeShareDistribution ∨ s.ethdkgPhase = .DisputeGPKJSubmission) ∧
      s.phaseStartBlock + s.phaseLength ≤ number ∧ s.badParticipants ≠ 0)

theorem unfinished_of_not_over (running : ¬ Over s number) : s.ethdkgPhase ≠ .Completion :=
  fun completed => running (Or.inr (Or.inl completed))

theorem Over.later (ended : Over s number) (later : number ≤ number') : Over s number' := by
  rcases ended with unstarted | completed | expired | ⟨dispute, expired, bad⟩
  · exact .inl unstarted
  · exact .inr (.inl completed)
  · exact .inr (.inr (.inl (expired.trans later)))
  · exact .inr (.inr (.inr ⟨dispute, expired.trans later, bad⟩))

private theorem isETHDKGHalted_ok (ran : isETHDKGHalted s number = .ok halted) :
    (2 * s.phaseLength < 2 ^ 16 ∧ s.phaseStartBlock + 2 * s.phaseLength < 2 ^ 64) ∧
      (halted = true ↔ s.phaseStartBlock + 2 * s.phaseLength ≤ number ∨
        ((s.ethdkgPhase = .DisputeShareDistribution ∨ s.ethdkgPhase = .DisputeGPKJSubmission) ∧
          s.phaseStartBlock + s.phaseLength ≤ number ∧ s.badParticipants ≠ 0)) := by
  unfold isETHDKGHalted at ran
  split at ran
  · rename_i dispute
    simp only [ok_iff, phaseEnd_ok_iff, disputeEnd_ok_iff] at ran
    obtain ⟨_, ⟨_, rfl⟩, _, rfl, _, ⟨short, bounded, rfl⟩, rfl⟩ := ran
    exact ⟨⟨short, bounded⟩, by simp [dispute]⟩
  · rename_i normal
    simp only [ok_iff, disputeEnd_ok_iff] at ran
    obtain ⟨_, rfl, _, ⟨short, bounded, rfl⟩, rfl⟩ := ran
    exact ⟨⟨short, bounded⟩, by simp [normal]⟩

theorem over_iff_of_running (ran : isETHDKGRunning s number = .ok running) :
    Over s number ↔ running = false := by
  unfold isETHDKGRunning at ran
  split at ran
  · rename_i unstarted
    rw [pure_ok_iff] at ran
    simp [Over, unstarted, ← ran]
  · rename_i started
    split at ran
    · rename_i completed
      rw [pure_ok_iff] at ran
      have last : s.ethdkgPhase = .Completion := by simpa [isETHDKGCompleted] using completed
      simp [Over, last, ← ran]
    · rename_i unfinished
      have last : s.ethdkgPhase ≠ .Completion := by simpa [isETHDKGCompleted] using unfinished
      simp only [ok_iff] at ran
      obtain ⟨halted, found, rfl⟩ := ran
      rw [Over, Bool.not_eq_false', (isETHDKGHalted_ok found).2]
      simp [started, last]

theorem Submitting.not_over (window : Submitting w phase) (started : 0 < w.dkg.phaseStartBlock)
    (unfinished : phase ≠ .Completion) : ¬ Over w.dkg w.number := by
  obtain ⟨current, _, inTime, _⟩ := window
  rintro (unstarted | completed | expired | ⟨_, expired, _⟩)
  · omega
  · exact unfinished (current.symm.trans completed)
  · omega
  · omega

theorem Awaiting.not_over (window : Awaiting w phase) (started : 0 < w.dkg.phaseStartBlock)
    (unfinished : phase ≠ .Completion)
    (undisputed : (phase = .DisputeShareDistribution ∨ phase = .DisputeGPKJSubmission) →
      w.dkg.badParticipants = 0) : ¬ Over w.dkg w.number := by
  obtain ⟨current, _, inTime, _⟩ := window
  rintro (unstarted | completed | expired | ⟨dispute, _, bad⟩)
  · omega
  · exact unfinished (current.symm.trans completed)
  · omega
  · exact bad (undisputed (by rwa [current] at dispute))

def World.counted (w : World) (numParticipants : ℕ) : World :=
    { w with dkg := { w.dkg with numParticipants } }

def World.advanced (w : World) (phase : Phase) (phaseStartBlock : ℕ) : World :=
  { w with dkg := { w.dkg with ethdkgPhase := phase, phaseStartBlock, numParticipants := 0 } }

inductive Closed (w : World) (phase : Phase) (numParticipants : ℕ) (event : Event) : World → Prop
  | stays (others : numParticipants ≠ w.validators.card) :
      Closed w phase numParticipants event (w.counted numParticipants)
  | advances (phaseStartBlock : ℕ) (all : numParticipants = w.validators.card)
      (starts : phaseStartBlock = w.number % 2 ^ 64 + w.dkg.confirmationLength) :
      Closed w phase numParticipants event ((w.advanced phase phaseStartBlock).emit event)

theorem closeSubmission_ok (bounded : numParticipants < 2 ^ 32)
    (ran : closeSubmission w phase numParticipants event = .ok w') :
    Closed w phase numParticipants event w' := by
  simp only [closeSubmission, moveToNextPhase, ok_iff] at ran
  obtain ⟨⟨moved, advanced⟩, found, rfl⟩ := ran
  split at found
  · rename_i all
    simp only [ok_iff', add64, add_ok_iff] at found
    obtain ⟨_, ⟨_, rfl⟩, rfl, rfl⟩ := found
    exact .advances _ all rfl
  · rename_i others
    obtain ⟨rfl, rfl⟩ := found
    rw [Nat.mod_eq_of_lt bounded]
    exact .stays others

theorem initializeETHDKG_ok (ran : ValidatorPool.initializeETHDKG contract w msg = .ok w') :
    Over w.dkg w.number ∧ w.isConsensusRunning = false ∧
      w' = { w with
        dkg := { w.dkg with
          phaseStartBlock := w.number % 2 ^ 64
          nonce := w.dkg.nonce + 1
          numParticipants := 0
          badParticipants := 0
          ethdkgPhase := .RegistrationOpen }
        slashed := ∅
        events :=
          w.events ++ [.RegistrationOpened w.number w.validators.card (w.dkg.nonce + 1)
          w.dkg.phaseLength
          w.dkg.confirmationLength] } := by
  simp only [ValidatorPool.initializeETHDKG, initializeETHDKG, ok_iff, add64, add_ok_iff] at ran
  obtain ⟨_, _, running, found, _, idle, _, stopped, _, _, _, _, _, ⟨_, rfl⟩, rfl⟩ := ran
  exact ⟨(over_iff_of_running found).mpr idle, stopped, rfl⟩

theorem register_ok (ran : register w msg publicKey = .ok w') :
    msg.sender ∈ w.validators ∧ Submitting w .RegistrationOpen ∧ (w.participant msg.sender).nonce <
    w.dkg.nonce ∧
      w.dkg.numParticipants + 1 < 2 ^ 32 ∧
      Closed
        ((w.setParticipant msg.sender
            { publicKey, index := w.dkg.numParticipants + 1, nonce := w.dkg.nonce,
              phase := .RegistrationOpen }).emit
          (.AddressRegistered msg.sender (w.dkg.numParticipants + 1) w.dkg.nonce publicKey))
        .ShareDistribution (w.dkg.numParticipants + 1) (.RegistrationComplete w.number) w' := by
  simp only [register, onlyValidator, ok_iff, add_ok_iff] at ran
  obtain ⟨_, active, _, window, _, _, _, _, _, fresh, _, ⟨bounded, rfl⟩, closed⟩ := ran
  have submitting := submissionWindow_ok_iff.mp window
  rw [submitting.current] at closed
  refine ⟨active, submitting, ?_, bounded, closeSubmission_ok bounded closed⟩
  unfold assertNotParticipating at fresh
  split at fresh
  · simp [bind_ok_iff] at fresh
  · rename_i earlier
    exact not_le.mp earlier

theorem distributeShares_ok (ran : distributeShares curve w msg encryptedShares commitments =
    .ok w') :
    ∃ participant : Participant,
      msg.sender ∈ w.validators ∧ Submitting w .ShareDistribution ∧
      (w.participant msg.sender).nonce = w.dkg.nonce ∧ (w.participant msg.sender).phase =
      .RegistrationOpen ∧
      participant = { w.participant msg.sender with
        distributedSharesHash := hashShares curve encryptedShares commitments
        commitmentsFirstCoefficient := commitments.headD (0, 0)
        phase := .ShareDistribution } ∧
      Closed
        ((w.setParticipant msg.sender participant).emit
          (.SharesDistributed msg.sender participant.index participant.nonce encryptedShares
            commitments))
        .DisputeShareDistribution (w.dkg.numParticipants + 1) (.ShareDistributionComplete w.number)
            w' := by
  simp only [distributeShares, onlyValidator, ok_iff, add_ok_iff] at ran
  obtain ⟨_, active, _, window, _, nonce, _, phase, _, _, _, _, _, _, _, _, _, _, _, ⟨bounded, rfl⟩,
    closed⟩ := ran
  exact ⟨_, active, submissionWindow_ok_iff.mp window, nonce, phase, rfl,
    closeSubmission_ok bounded closed⟩

inductive KeySharesOpen (w : World) : World → Prop
  | already (window : Submitting w .KeyShareSubmission) : KeySharesOpen w w
  | opens (window : Awaiting w .DisputeShareDistribution) (undisputed : w.dkg.badParticipants = 0) :
      KeySharesOpen w (w.advanced .KeyShareSubmission (w.number % 2 ^ 64))

theorem openKeyShareSubmission_ok_iff : openKeyShareSubmission w = .ok w' ↔
    KeySharesOpen w w' ∧ (w.dkg.ethdkgPhase = .DisputeShareDistribution → 2 * w.dkg.phaseLength <
      2 ^ 16) := by
  simp only [openKeyShareSubmission, bind_ok_iff, phaseEnd_ok_iff]
  constructor
  · rintro ⟨_, ⟨bounded, rfl⟩, ran⟩
    split at ran
    · rename_i window
      obtain rfl := pure_ok_iff.mp ran
      refine ⟨.already ⟨window.1, window.2.1, window.2.2, bounded⟩, fun other => ?_⟩
      exact absurd (window.1.symm.trans other) (by decide)
    · simp only [ok_iff, disputeEnd_ok_iff] at ran
      obtain ⟨_, ⟨short, far, rfl⟩, _, ⟨current, opened, inTime, undisputed⟩, rfl⟩ := ran
      exact ⟨.opens ⟨current, opened, inTime, far⟩ undisputed, fun _ => short⟩
  · rintro ⟨opens, short⟩
    cases opens with
    | already window =>
      exact ⟨_, ⟨window.bounded, rfl⟩, if_pos ⟨window.current, window.opened, window.inTime⟩⟩
    | opens window undisputed =>
      obtain ⟨current, opened, inTime, far⟩ := window
      refine ⟨_, ⟨by omega, rfl⟩, ?_⟩
      rw [if_neg (by omega)]
      simp only [ok_iff, disputeEnd_ok_iff]
      exact ⟨_, ⟨short current, far, rfl⟩, (), ⟨current, opened, inTime, undisputed⟩, rfl⟩

def World.keyed (w : World) (mpkG1 : Point) : World := { w with dkg := { w.dkg with mpkG1 } }

theorem submitKeyShare_ok (ran : submitKeyShare curve w msg keyShareG1 proof keyShareG2 = .ok w') :
    ∃ v mpkG1, ∃ participant : Participant,
      msg.sender ∈ w.validators ∧ KeySharesOpen w v ∧
      (v.participant msg.sender).nonce = v.dkg.nonce ∧ (v.participant msg.sender).phase =
      .ShareDistribution ∧
      participant = { v.participant msg.sender with
        keyShares := keyShareG1, phase := .KeyShareSubmission } ∧
      bn128Add curve (if 1 < v.dkg.numParticipants + 1 then v.dkg.mpkG1 else (0, 0)) keyShareG1 =
        .ok mpkG1 ∧
      Closed
        (((v.setParticipant msg.sender participant).keyed mpkG1).emit
          (.KeyShareSubmitted msg.sender participant.index participant.nonce keyShareG1 proof
            keyShareG2))
        .MPKSubmission (v.dkg.numParticipants + 1) (.KeyShareSubmissionComplete v.number) w' := by
  simp only [submitKeyShare, onlyValidator, ok_iff, add_ok_iff, mapError_ok_iff] at ran
  obtain ⟨_, active, v, opened, _, nonce, _, phase, _, _, _, _, _, _, _, _, _, ⟨bounded, rfl⟩,
      mpkG1, sum, closed⟩ :=
    ran
  exact ⟨v, mpkG1, _, active, (openKeyShareSubmission_ok_iff.mp opened).1, nonce, phase, rfl, sum,
    closeSubmission_ok bounded closed⟩

theorem submitMasterPublicKey_ok (msg : Msg)
    (ran : submitMasterPublicKey curve w msg masterPublicKey = .ok w') :
    ∃ masterPublicKeyHash, Submitting w .MPKSubmission ∧
      w' = ({ w with dkg := { w.dkg with masterPublicKey, masterPublicKeyHash } }.advanced
      .GPKJSubmission
        (w.number % 2 ^ 64)).emit (.MPKSet w.number w.dkg.nonce masterPublicKey) := by
  simp only [submitMasterPublicKey, ok_iff] at ran
  obtain ⟨_, window, _, _, _, _, rfl⟩ := ran
  exact ⟨_, submissionWindow_ok_iff.mp window, rfl⟩

theorem submitGPKJ_ok (ran : submitGPKJ w msg gpkj = .ok w') :
    ∃ participant : Participant,
      msg.sender ∈ w.validators ∧ Submitting w .GPKJSubmission ∧
      (w.participant msg.sender).nonce = w.dkg.nonce ∧ (w.participant msg.sender).phase =
      .KeyShareSubmission ∧
      gpkj ≠ (0, 0, 0, 0) ∧
      participant = { w.participant msg.sender with gpkj, phase := .GPKJSubmission } ∧
      Closed
        ((w.setParticipant msg.sender participant).emit
          (.ValidatorMemberAdded msg.sender participant.index participant.nonce w.epoch gpkj))
        .DisputeGPKJSubmission (w.dkg.numParticipants + 1) (.GPKJSubmissionComplete w.number)
            w' := by
  simp only [submitGPKJ, onlyValidator, ok_iff, add_ok_iff] at ran
  obtain ⟨_, active, _, window, _, nonce, _, phase, _, nonzero, _, ⟨bounded, rfl⟩, closed⟩ := ran
  exact ⟨_, active, submissionWindow_ok_iff.mp window, nonce, phase, nonzero, rfl,
    closeSubmission_ok bounded closed⟩

theorem complete_ok (ran : complete w msg = .ok w') :
    ∃ aliceNetHeight, Awaiting w .DisputeGPKJSubmission ∧ w.dkg.badParticipants = 0 ∧
      w' = ({ w with
          dkg := { w.dkg with customAliceNetHeight := 0 }
          isConsensusRunning := true }.advanced .Completion
        (w.number % 2 ^ 64)).emit (.ValidatorSetCompleted (w.validators.card % 2 ^ 8) w.dkg.nonce
          w.epoch
          msg.getCommittedHeightFromLatestSnapshot aliceNetHeight w.dkg.masterPublicKey) := by
  simp only [complete, onlyValidator, ok_iff] at ran
  obtain ⟨_, _, _, window, _, undisputed, rfl⟩ := ran
  exact ⟨_, (accusationWindow_ok_iff.mp window).2, undisputed, rfl⟩

def World.paused (w : World) (ethHeight aliceNetHeight : ℕ) : World :=
  { w with
    isConsensusRunning := false
    dkg := { w.dkg with customAliceNetHeight := aliceNetHeight } }.emit
      (.ValidatorSetCompleted 0 w.dkg.nonce w.epoch ethHeight aliceNetHeight (0, 0, 0, 0))

theorem pauseConsensusOnArbitraryHeight_ok
    (ran : ValidatorPool.pauseConsensusOnArbitraryHeight contract w msg aliceNetHeight = .ok w') :
    w' = w.paused msg.getCommittedHeightFromLatestSnapshot aliceNetHeight := by
  simp only [ValidatorPool.pauseConsensusOnArbitraryHeight, setCustomAliceNetHeight, ok_iff] at ran
  obtain ⟨_, _, _, _, _, _, _, _, rfl⟩ := ran
  rfl

def Storage.participating (s : Storage) (account : Address) : Prop :=
  s.nonce ≠ 0 ∧ (s.participants account).nonce = s.nonce

def Phase.dispute (phase : Phase) : Prop := phase = .DisputeShareDistribution ∨
    phase = .DisputeGPKJSubmission

def Phase.submission (phase : Phase) : Prop :=
  phase = .RegistrationOpen ∨ phase = .ShareDistribution ∨ phase = .KeyShareSubmission ∨
    phase = .GPKJSubmission

/-- Accounts can be accused now. -/
structure Accusing (w : World) : Prop where
  enrolled : w.dkg.nonce ≠ 0
  started : 0 < w.dkg.phaseStartBlock
  window : (w.dkg.ethdkgPhase.dispute ∧ Submitting w w.dkg.ethdkgPhase) ∨
    (w.dkg.ethdkgPhase.submission ∧ Awaiting w w.dkg.ethdkgPhase)

/-- The account that the event reports as slashed -/
def Event.evicted : Event → Option Address
  | .ValidatorMajorSlashed account => some account
  | .ValidatorMinorSlashed account => some account
  | _ => none

/-- The event says that the consensus was stopped without a snapshot. -/
def Event.pauses : Event → Bool
  | .ValidatorSetCompleted 0 .. => true
  | _ => false

def SameRound (s t : Storage) : Prop :=
  ∃ badParticipants customAliceNetHeight, t = { s with badParticipants, customAliceNetHeight }

structure Evicted (w w' : World) (accounts : Finset Address) : Prop where
  dkg : SameRound w.dkg w'.dkg
  validators : w'.validators = w.validators \ accounts
  slashed : w'.slashed = w.slashed ∪ accounts
  active : accounts ⊆ w.validators
  participating : w.dkg.ethdkgPhase ≠ .RegistrationOpen → ∀ account ∈ accounts,
    w.dkg.participating account
  number : w'.number = w.number
  events : ∃ reported : List Event, w'.events = w.events ++ reported ∧
    (∀ event ∈ reported, event.evicted ≠ none ∨ event.pauses = true) ∧
    (reported.filterMap Event.evicted).Nodup ∧ (reported.filterMap Event.evicted).toFinset =
      accounts
  quiet : w.isConsensusRunning = false → w'.isConsensusRunning = false ∧ w'.epoch = w.epoch

/-- The eviction shows in the counter. -/
structure Accused (w w' : World) (accounts : Finset Address) :
  Prop extends Evicted w w' accounts where
  blamed : accounts.Nonempty ∨ w.dkg.badParticipants ≠ 0 → w'.dkg.badParticipants ≠ 0

theorem Evicted.refl (w : World) : Evicted w w ∅ where
  dkg := ⟨w.dkg.badParticipants, w.dkg.customAliceNetHeight, rfl⟩
  validators := (Finset.sdiff_empty).symm
  slashed := (Finset.union_empty _).symm
  active := Finset.empty_subset _
  participating := by simp
  number := rfl
  events := ⟨[], by simp⟩
  quiet stopped := ⟨stopped, rfl⟩

theorem SameRound.trans (first : SameRound s t) (second : SameRound t u) : SameRound s u := by
  obtain ⟨_, _, rfl⟩ := first
  obtain ⟨badParticipants, customAliceNetHeight, rfl⟩ := second
  exact ⟨badParticipants, customAliceNetHeight, rfl⟩

theorem Evicted.trans (first : Evicted u v accounts) (second : Evicted v w others) :
    Evicted u w (accounts ∪ others) where
  dkg := first.dkg.trans second.dkg
  validators := by rw [second.validators, first.validators, sdiff_sdiff, Finset.sup_eq_union]
  slashed := by rw [second.slashed, first.slashed, Finset.union_assoc]
  active := by
    refine Finset.union_subset first.active (second.active.trans ?_)
    rw [first.validators]
    exact Finset.sdiff_subset
  participating := by
    intro later account mem
    obtain ⟨_, _, before⟩ := first.dkg
    rcases Finset.mem_union.mp mem with early | late
    · exact first.participating later account early
    · have found := second.participating (by rwa [before]) account late
      rwa [before] at found
  number := second.number.trans first.number
  events := by
    obtain ⟨reported, log, kinds, nodup, rfl⟩ := first.events
    obtain ⟨more, log', kinds', nodup', rfl⟩ := second.events
    refine ⟨reported ++ more, ?_, ?_, ?_, ?_⟩
    · rw [log', log, append_assoc]
    · exact forall_mem_append.mpr ⟨kinds, kinds'⟩
    · rw [filterMap_append]
      refine nodup.append nodup' ?_
      intro account early late
      have still := second.active (mem_toFinset.mpr late)
      rw [first.validators, Finset.mem_sdiff] at still
      exact still.2 (mem_toFinset.mpr early)
    · rw [filterMap_append, toFinset_append]
  quiet := by
    intro stopped
    obtain ⟨still, epoch⟩ := first.quiet stopped
    exact ⟨(second.quiet still).1, (second.quiet still).2.trans epoch⟩

theorem Evicted.paused (w : World) (ethHeight aliceNetHeight : ℕ) :
    Evicted w (w.paused ethHeight aliceNetHeight) ∅ :=
  { Evicted.refl w with
    dkg := ⟨w.dkg.badParticipants, aliceNetHeight, rfl⟩
    events := ⟨[_], rfl, by simp [Event.pauses], nodup_nil, rfl⟩
    quiet := fun _ => ⟨rfl, rfl⟩ }

theorem Accused.refl (w : World) : Accused w w ∅ := ⟨Evicted.refl w, by simp⟩

theorem Accused.trans (first : Accused u v accounts) (second : Accused v w others) :
    Accused u w (accounts ∪ others) := by
  refine ⟨first.toEvicted.trans second.toEvicted, ?_⟩
  intro before
  apply second.blamed
  by_cases late : others.Nonempty
  · exact .inl late
  · rw [Finset.not_nonempty_iff_eq_empty.mp late, Finset.union_empty] at before
    exact .inr (first.blamed before)

theorem Accusing.congr (accusing : Accusing w) (dkg : SameRound w.dkg w'.dkg)
    (number : w'.number = w.number) : Accusing w' := by
  obtain ⟨_, _, same⟩ := dkg
  obtain ⟨enrolled, started, window⟩ := accusing
  refine ⟨by rwa [same], by rwa [same], ?_⟩
  rw [same]
  rcases window with ⟨dispute, submitting⟩ | ⟨submission, awaiting⟩
  · refine .inl ⟨dispute, ?_⟩
    constructor <;> rw [same] <;> try rw [number]
    exacts [submitting.opened, submitting.inTime, submitting.bounded]
  · refine .inr ⟨submission, ?_⟩
    constructor <;> rw [same] <;> try rw [number]
    exacts [awaiting.opened, awaiting.inTime, awaiting.bounded]

theorem Accusing.not_over (accusing : Accusing w) : ¬ Over w.dkg w.number := by
  obtain ⟨_, started, window⟩ := accusing
  rcases window with ⟨dispute, submitting⟩ | ⟨submission, awaiting⟩
  · refine submitting.not_over started ?_
    rcases dispute with phase | phase <;> simp [phase]
  · refine awaiting.not_over started ?_ ?_
    · rcases submission with phase | phase | phase | phase <;> simp [phase]
    · rcases submission with phase | phase | phase | phase <;> simp [phase]

/-- What is done in reply to a payment may accuse more accounts. -/
def Accuses (nested : World → World → Prop) : Prop :=
  ∀ v v', nested v v' → Accusing v → ∃ accounts, Accused v v' accounts

theorem Evicted.accused (evicted : Evicted w w' accounts) (badParticipants : ℕ) :
    Accused w (w'.setBadParticipants (badParticipants + 1)) accounts := by
  refine ⟨⟨?_, evicted.validators, evicted.slashed, evicted.active, evicted.participating,
    evicted.number,
    evicted.events, evicted.quiet⟩, ?_⟩
  · obtain ⟨_, customAliceNetHeight, same⟩ := evicted.dkg
    exact ⟨badParticipants + 1, customAliceNetHeight, by rw [World.setBadParticipants, same]⟩
  · simp [World.setBadParticipants]

section

variable {nested : World → World → Prop} {msg : Msg} (accuses : Accuses nested)
  (reaction : ∀ v, nested v (msg.received v)) (accusing : Accusing w)

include accuses reaction accusing

theorem slash_ok (active : dishonest ∈ w.validators)
    (participating : w.dkg.ethdkgPhase ≠ .RegistrationOpen → (w.participant dishonest).nonce =
      w.dkg.nonce)
    (reports : event.evicted = some dishonest) (ran : slash w msg dishonest event = .ok w') :
    ∃ accounts, Evicted w w' accounts := by
  simp only [slash, ok_iff] at ran
  obtain ⟨_, _, rfl⟩ := ran
  have still : Accusing { w with
      validators := w.validators.erase dishonest, slashed := insert dishonest w.slashed } :=
    accusing.congr ⟨_, _, rfl⟩ rfl
  obtain ⟨others, more⟩ := accuses _ _ (reaction _) still
  obtain ⟨reported, log, kinds, nodup, rfl⟩ := more.events
  have absent : dishonest ∉ reported.filterMap Event.evicted := by
    intro mem
    have remains := more.active (mem_toFinset.mpr mem)
    exact Finset.notMem_erase dishonest w.validators remains
  have names : (reported ++ [event]).filterMap Event.evicted =
      reported.filterMap Event.evicted ++ [dishonest] := by
    rw [filterMap_append, filterMap_cons_some reports, filterMap_nil]
  refine ⟨insert dishonest (reported.filterMap Event.evicted).toFinset, more.dkg, ?_, ?_, ?_, ?_,
    more.number, ⟨reported ++ [event], ?_, ?_, ?_, ?_⟩, more.quiet⟩
  · refine more.validators.trans ?_
    rw [← Finset.sdiff_singleton_eq_erase, sdiff_sdiff, Finset.sup_eq_union, Finset.singleton_union]
  · refine more.slashed.trans ?_
    rw [Finset.insert_union, Finset.union_insert]
  · exact Finset.insert_subset active (more.active.trans (Finset.erase_subset _ _))
  · intro later account mem
    rcases Finset.mem_insert.mp mem with rfl | other
    · exact ⟨accusing.enrolled, participating later⟩
    · exact more.participating later account other
  · show (World.events _) ++ [event] = w.events ++ (reported ++ [event])
    rw [log, append_assoc]
  · simpa [or_imp, forall_and, reports] using kinds
  · rw [names]
    exact nodup.append (nodup_singleton _) (by simpa using absent)
  · rw [names, toFinset_append, toFinset_cons, toFinset_nil, Finset.union_comm,
      Finset.insert_union, Finset.empty_union]

private theorem accuseEach_ok
    (checked : ∀ v account, v.dkg.ethdkgPhase = w.dkg.ethdkgPhase → check v account = .ok () →
      w.dkg.ethdkgPhase ≠ .RegistrationOpen → (v.participant account).nonce = v.dkg.nonce)
    (ran : accuseEach msg check dishonestAddresses w badParticipants = .ok (w', badParticipants')) :
    badParticipants' = badParticipants + dishonestAddresses.length ∧
      (dishonestAddresses = [] → w' = w) ∧ ∃ accounts, Evicted w w' accounts := by
  induction dishonestAddresses generalizing w badParticipants with
  | nil =>
    simp only [accuseEach, pure_ok_iff, Prod.mk.injEq] at ran
    obtain ⟨rfl, rfl⟩ := ran
    exact ⟨by simp, by simp, ∅, Evicted.refl w⟩
  | cons dishonest rest ih =>
    simp only [accuseEach, ok_iff, add_ok_iff] at ran
    obtain ⟨_, active, _, found, v, slashed, _, ⟨_, rfl⟩, others⟩ := ran
    obtain ⟨accounts, evicted⟩ :=
      slash_ok accuses reaction accusing active (checked w dishonest rfl found) rfl slashed
    have same : v.dkg.ethdkgPhase = w.dkg.ethdkgPhase := by
      obtain ⟨_, _, same⟩ := evicted.dkg
      rw [same]
    obtain ⟨count, _, more, later⟩ :=
      ih (accusing.congr evicted.dkg evicted.number) (by rwa [same]) others
    refine ⟨?_, by simp, accounts ∪ more, evicted.trans later⟩
    rw [count, length_cons]
    omega

private theorem accuseAll_ok
    (checked : ∀ v account, v.dkg.ethdkgPhase = phase → check v account = .ok () →
      phase ≠ .RegistrationOpen → (v.participant account).nonce = v.dkg.nonce)
    (ran : accuseAll w msg phase check dishonestAddresses = .ok w') :
    ∃ accounts, Accused w w' accounts := by
  simp only [accuseAll, ok_iff] at ran
  obtain ⟨_, window, ⟨v, badParticipants⟩, each, rfl⟩ := ran
  have current := (accusationWindow_ok_iff.mp window).2.current
  obtain ⟨rfl, unchanged, accounts, evicted⟩ :=
    accuseEach_ok accuses reaction accusing (by rwa [current]) each
  cases dishonestAddresses with
  | nil =>
    rw [unchanged rfl]
    exact ⟨∅, Accused.refl w⟩
  | cons dishonest rest =>
    exact ⟨accounts, evicted.accused _⟩

end

theorem Accusing.not_submitting (accusing : Accusing w) (window : Submitting w phase)
    (undisputed : ¬ phase.dispute) : False := by
  obtain ⟨current, _, inTime, _⟩ := window
  rcases accusing.window with ⟨dispute, _⟩ | ⟨_, awaiting⟩
  · rw [current] at dispute
    exact undisputed dispute
  · have opened := awaiting.opened
    omega

theorem Accusing.not_awaiting (accusing : Accusing w) (window : Awaiting w phase)
    (dispute : phase.dispute) : False := by
  obtain ⟨current, opened, _, _⟩ := window
  rcases accusing.window with ⟨_, submitting⟩ | ⟨submission, _⟩
  · have inTime := submitting.inTime
    omega
  · rw [current] at submission
    rcases dispute with rfl | rfl <;> simp [Phase.submission] at submission

theorem Accusing.not_keySharesOpen (accusing : Accusing w) (opens : KeySharesOpen w v) : False := by
  cases opens with
  | already window => exact accusing.not_submitting window (by simp [Phase.dispute])
  | opens window _ => exact accusing.not_awaiting window (by simp [Phase.dispute])

theorem Accusing.step (accusing : Accusing w) (accuses : Accuses nested)
    (step : Step contract curve nested w w') : ∃ accounts, Accused w w' accounts := by
  cases step with
  | call msg call reaction ran =>
    cases call with
    | initializeETHDKG => exact (accusing.not_over (initializeETHDKG_ok ran).1).elim
    | pauseConsensusOnArbitraryHeight aliceNetHeight =>
      obtain rfl := pauseConsensusOnArbitraryHeight_ok ran
      exact ⟨∅, Evicted.paused _ _ _, by simp [World.paused, World.emit]⟩
    | register publicKey =>
      exact (accusing.not_submitting (register_ok ran).2.1 (by simp [Phase.dispute])).elim
    | distributeShares encryptedShares commitments =>
      obtain ⟨_, _, window, _⟩ := distributeShares_ok ran
      exact (accusing.not_submitting window (by simp [Phase.dispute])).elim
    | submitKeyShare keyShareG1 proof keyShareG2 =>
      obtain ⟨_, _, _, _, opens, _⟩ := submitKeyShare_ok ran
      exact (accusing.not_keySharesOpen opens).elim
    | submitMasterPublicKey masterPublicKey =>
      obtain ⟨_, window, _⟩ := submitMasterPublicKey_ok msg ran
      exact (accusing.not_submitting window (by simp [Phase.dispute])).elim
    | submitGPKJ gpkj =>
      obtain ⟨_, _, window, _⟩ := submitGPKJ_ok ran
      exact (accusing.not_submitting window (by simp [Phase.dispute])).elim
    | complete =>
      obtain ⟨_, window, _⟩ := complete_ok ran
      exact (accusing.not_awaiting window (by simp [Phase.dispute])).elim
    | accuseParticipantNotRegistered dishonestAddresses =>
      exact accuseAll_ok accuses reaction accusing (by simp) ran
    | accuseParticipantDidNotDistributeShares dishonestAddresses
    | accuseParticipantDidNotSubmitKeyShares dishonestAddresses
    | accuseParticipantDidNotSubmitGPKJ dishonestAddresses =>
      exact accuseAll_ok accuses reaction accusing (fun v account _ found _ => of_require found) ran
    -- either side of a dispute is a validator that takes part in the round
    | accuseParticipantDistributedBadShares accused encryptedShares commitments sharedKey proof =>
      simp only [exec, accuseParticipantDistributedBadShares, onlyValidator, ok_iff,
        add_ok_iff] at ran
      obtain ⟨_, disputer, _, _, _, active, _, disputerNonce, _, accusedNonce, _, _, _, _, _, _, _,
        _, _, _, _, _, _, _, _, _, v, slashed, _, ⟨_, rfl⟩, rfl⟩ := ran
      obtain ⟨accounts, evicted⟩ :=
        slash_ok accuses reaction accusing (by split <;> assumption)
          (fun _ => by split <;> assumption) rfl slashed
      exact ⟨accounts, evicted.accused _⟩
    | accuseParticipantSubmittedBadGPKJ validators encryptedSharesHash commitments accused =>
      simp only [exec, accuseParticipantSubmittedBadGPKJ, onlyValidator, ok_iff, add_ok_iff] at ran
      obtain ⟨_, disputer, _, _, _, active, _, ⟨accusedNonce, _⟩, _, ⟨disputerNonce, _⟩, _, _, _, _,
        _, _, _, _, v, slashed, _, ⟨_, rfl⟩, rfl⟩ := ran
      obtain ⟨accounts, evicted⟩ :=
        slash_ok accuses reaction accusing (by split <;> assumption)
          (fun _ => by split <;> assumption) rfl slashed
      exact ⟨accounts, evicted.accused _⟩
  | joins account _ idle | leaves account _ idle =>
    exact (accusing.not_over ((over_iff_of_running idle).mpr rfl)).elim
  | snapshot maintenance running =>
    refine ⟨∅, { Accused.refl w with quiet := fun stopped => ?_ }⟩
    rw [running] at stopped
    cases stopped

theorem nested_accuses (contract : Contract) (curve : Curve) (depth : ℕ) :
    Accuses (Nested contract curve depth) := by
  induction depth with
  | zero =>
    rintro v _ rfl accusing
    exact ⟨∅, Accused.refl v⟩
  | succ depth ih =>
    intro v v' steps accusing
    induction steps with
    | refl => exact ⟨∅, Accused.refl v⟩
    | tail _ step previous =>
      obtain ⟨accounts, before⟩ := previous
      obtain ⟨others, after⟩ := (accusing.congr before.dkg before.number).step ih step
      exact ⟨accounts ∪ others, before.trans after⟩

end AliceNet.Bridge.Ethdkg
