import AliceNet.Bridge.Snapshots

/-! Runs of the snapshots contract: what a slot of the ring buffer holds of all that was committed.
-/

namespace AliceNet.Bridge.Snapshots

open Outcome Function List
open Parsers (BClaims)

structure Commit where
  epoch : ℕ
  snapshot : Snapshot
  called : Bool

def Commit.migrated (contract : Contract) (number : ℕ) (claims : BClaims) : Commit :=
  ⟨claims.height.toNat / contract.epochLength, ⟨number, claims⟩, false⟩

/-- Transactions that succeed, with what they committed, the latest first. -/
inductive Run (contract : Contract) : Storage → List Commit → Prop
  | initial : Run contract .initial []
  | initializeStorage (run : Run contract s log)
      (ran : Snapshots.initializeStorage contract s msg desperationDelay desperationFactor =
        .ok s') : Run contract s' log
  | setSnapshotDesperationDelay (run : Run contract s log)
      (ran : setSnapshotDesperationDelay contract s msg value = .ok s') : Run contract s' log
  | setSnapshotDesperationFactor (run : Run contract s log)
      (ran : setSnapshotDesperationFactor contract s msg value = .ok s') : Run contract s' log
  | setMinimumIntervalBetweenSnapshots (run : Run contract s log)
      (ran : setMinimumIntervalBetweenSnapshots contract s msg value = .ok s') : Run contract s' log
  | snapshot (run : Run contract s log) (ran : snapshot contract s msg groupSignature bClaims =
      .ok (s', safe))
      (parsed : Parsers.extractBClaims bClaims = .ok claims) :
      Run contract s' (⟨s.epoch.toNat + 1, ⟨msg.number, claims⟩, true⟩ :: log)
  | migrate (run : Run contract s log) (ran : migrateSnapshots contract s msg groupSignature
      bClaims = .ok s')
      (parsed : bClaims.mapM Parsers.extractBClaims = .ok claims) :
      Run contract s' ((claims.map (.migrated contract msg.number)).reverse ++ log)

/-- The snapshot that was committed for epoch `e`, and the only one. -/
structure Committed (contract : Contract) (log : List Commit) (e : ℕ) (x : Snapshot) : Prop where
  height : x.blockClaims.height.toNat = e * contract.epochLength
  committed : ∃ commit ∈ log, commit.epoch = e ∧ commit.snapshot = x
  only : ∀ commit ∈ log, commit.epoch = e → commit.snapshot = x

def Addressed (contract : Contract) (s : Storage) (e : ℕ) : Prop :=
  (e < 2 ^ 32 ∧ (s.snapshots (slotOf (UInt32.ofNat e))).blockClaims.height ≠ 0) ∨
    UInt32.ofNat e ≠ 0 ∧
      getEpochFromHeight contract (s.snapshots (slotOf (UInt32.ofNat e))).blockClaims.height ≠
        .ok (UInt32.ofNat e)

def Commit.slot (commit : Commit) : Fin 6 :=
  ⟨commit.epoch % 6, Nat.mod_lt _ (by norm_num)⟩

/-- A commit for epoch `e` has the height at which that epoch ends. -/
structure Commit.Fits (contract : Contract) (commit : Commit) : Prop where
  positive : 0 < commit.epoch
  height : commit.snapshot.blockClaims.height.toNat = commit.epoch * contract.epochLength
  nonzero : commit.snapshot.blockClaims.height ≠ 0

section

variable {contract : Contract} {s s' : Storage} {commit : Commit}

theorem Commit.Fits.length_pos (fits : commit.Fits contract) : 0 < contract.epochLength := by
  refine Nat.pos_of_ne_zero fun zero => fits.nonzero ?_
  have height := fits.height
  rw [zero, Nat.mul_zero] at height
  exact UInt32.toNat_inj.mp height

theorem Commit.Fits.epoch_lt (fits : commit.Fits contract) : commit.epoch < 2 ^ 32 := by
  have bound := commit.snapshot.blockClaims.height.toNat_lt
  have height := fits.height
  have positive := fits.length_pos
  nlinarith

private theorem getEpochFromHeight_mul (positive : 0 < contract.epochLength)
    (multiple : height.toNat = e * contract.epochLength) (nonzero : 0 < e) :
    getEpochFromHeight contract height = .ok (UInt32.ofNat e) := by
  unfold getEpochFromHeight
  split
  · rename_i small
    obtain rfl : e = 1 := by
      nlinarith
    rfl
  · have rest : height.toNat % contract.epochLength = 0 := by simp [multiple]
    have quotient : height.toNat / contract.epochLength = e := by simp [multiple, positive]
    simp [mod256, div256, require, positive.ne', rest, quotient, bind, Except.bind, pure,
      Except.pure]

section

variable (fits : commit.Fits contract)

include fits

theorem Commit.Fits.getEpochFromHeight :
    getEpochFromHeight contract commit.snapshot.blockClaims.height =
      .ok (UInt32.ofNat commit.epoch) :=
  getEpochFromHeight_mul fits.length_pos fits.height fits.positive

theorem Commit.Fits.toNat_epoch : (UInt32.ofNat commit.epoch).toNat = commit.epoch :=
  UInt32.toNat_ofNat_of_lt fits.epoch_lt

theorem Commit.Fits.slotOf : slotOf (UInt32.ofNat commit.epoch) = commit.slot := by
  simp only [Snapshots.slotOf, Commit.slot, fits.toNat_epoch]

theorem Commit.Fits.epoch_ne : UInt32.ofNat commit.epoch ≠ 0 := by
  intro zero
  have value := fits.toNat_epoch
  rw [zero] at value
  exact fits.positive.ne value

theorem setSnapshot_ok (ran : setSnapshot contract s commit.snapshot = .ok (s', epoch)) :
    (s.snapshots commit.slot).blockClaims.height < commit.snapshot.blockClaims.height ∧
      epoch = UInt32.ofNat commit.epoch ∧
      s' = { s with
        snapshots := Function.update s.snapshots commit.slot commit.snapshot
        epoch := epoch } := by
  simp only [setSnapshot, RingBuffer.set, indexFor, unsafeSet, fits.getEpochFromHeight, ok_iff',
    Except.ok.injEq] at ran
  obtain ⟨snapshots, _, ⟨_, rfl, _, ⟨_, rfl⟩, higher, _, ⟨_, ⟨_, rfl⟩, rfl⟩, rfl, rfl⟩, rfl, rfl⟩ :=
    ran
  rw [fits.slotOf] at higher ⊢
  exact ⟨higher, rfl, rfl⟩

end

/-- What the storage tells about all that was committed. -/
structure Holds (contract : Contract) (s : Storage) (log : List Commit) : Prop where
  fits : ∀ commit ∈ log, commit.Fits contract
  slots : ∀ i, s.snapshots i = .zero ∨ ∃ commit ∈ log, commit.slot = i ∧ s.snapshots i =
    commit.snapshot
  below : ∀ commit ∈ log, s.snapshots commit.slot = commit.snapshot ∨
    commit.snapshot.blockClaims.height < (s.snapshots commit.slot).blockClaims.height
  register : ((log.head?.map Commit.epoch).getD 0) = s.epoch.toNat
  recent : ∀ i commit, i < 6 → log[i]? = some commit →
    (∀ other ∈ log.take (i + 1), other.called = true) →
    commit.epoch + i = s.epoch.toNat ∧ s.snapshots commit.slot = commit.snapshot

theorem Holds.initial : Holds contract .initial [] where
  fits := nofun
  slots := fun _ => .inl rfl
  below := nofun
  register := rfl
  recent := nofun

theorem parse_ok_iff : parse result = .ok value ↔ result = .ok value := by
  cases result <;> simp [parse, Except.mapError]

section

variable (holds : Holds contract s log)

include holds

theorem Holds.push (fits : commit.Fits contract)
    (higher : (s.snapshots commit.slot).blockClaims.height < commit.snapshot.blockClaims.height)
    (next : commit.called = true → commit.epoch = s.epoch.toNat + 1) :
    Holds contract { s with
      snapshots := Function.update s.snapshots commit.slot commit.snapshot
      epoch := UInt32.ofNat commit.epoch } (commit :: log) where
  fits := by
    intro other mem
    rcases mem_cons.mp mem with rfl | mem
    · exact fits
    · exact holds.fits other mem
  slots := by
    intro i
    by_cases here : i = commit.slot
    · subst here
      exact .inr ⟨commit, by simp, rfl, update_self _ _ _⟩
    · simp only [update_of_ne here]
      refine (holds.slots i).imp_right ?_
      rintro ⟨other, mem, place, held⟩
      exact ⟨other, mem_cons_of_mem _ mem, place, held⟩
  below := by
    intro other mem
    rcases mem_cons.mp mem with rfl | mem
    · exact .inl (update_self _ _ _)
    · by_cases here : other.slot = commit.slot
      · simp only [here, update_self]
        refine .inr ?_
        have old := holds.below other mem
        rw [here] at old
        rcases old with held | lower
        · exact held ▸ higher
        · exact UInt32.lt_trans lower higher
      · simp only [update_of_ne here]
        exact holds.below other mem
  register := fits.toNat_epoch.symm
  recent := by
    intro i other few found called
    simp only [fits.toNat_epoch]
    have newest := next (called commit (by simp))
    cases i with
    | zero =>
      obtain rfl : commit = other := by simpa using found
      exact ⟨rfl, update_self _ _ _⟩
    | succ i =>
      have older : log[i]? = some other := by simpa using found
      obtain ⟨before, held⟩ := holds.recent i other (by omega) older fun older mem =>
        called older (by simp [take_succ_cons, mem])
      refine ⟨by omega, ?_⟩
      -- fewer than six epochs apart
      have apart : other.slot ≠ commit.slot := by
        intro same
        have slots := Fin.mk.inj_iff.mp same
        omega
      simp only [update_of_ne apart, held]

theorem Holds.congr (snapshots : s'.snapshots = s.snapshots) (epoch : s'.epoch = s.epoch) :
    Holds contract s' log where
  fits := holds.fits
  slots := snapshots ▸ holds.slots
  below := snapshots ▸ holds.below
  register := epoch ▸ holds.register
  recent := by
    rw [snapshots, epoch]
    exact holds.recent

theorem Holds.snapshot
    (ran : snapshot contract s msg groupSignature bClaims = .ok (s', safe))
    (parsed : Parsers.extractBClaims bClaims = .ok claims) :
    Holds contract s' (⟨s.epoch.toNat + 1, ⟨msg.number, claims⟩, true⟩ :: log) := by
  simp only [Snapshots.snapshot, nextEpoch, parseAndValidateBClaims, ok_iff', parse_ok_iff, parsed,
    Except.ok.injEq, mul256, Word.mul_ok_iff] at ran
  obtain ⟨_, _, _, ⟨small, rfl⟩, _, ⟨_, rfl, _, ⟨_, rfl⟩, height, _, rfl⟩, _, _, _, _, _, _, _, _,
    _, _, stored, _, written, _, _, rfl, rfl⟩ := ran
  have value : (s.epoch + 1).toNat = s.epoch.toNat + 1 := by
    exact Nat.mod_eq_of_lt small
  have fits : Commit.Fits contract ⟨s.epoch.toNat + 1, ⟨msg.number, claims⟩, true⟩ :=
    ⟨Nat.succ_pos _, by rw [← value]; exact height.symm, Parsers.extractBClaims_height parsed⟩
  obtain ⟨higher, _, rfl⟩ := setSnapshot_ok fits written
  refine (holds.push fits higher fun _ => rfl).congr rfl ?_
  exact UInt32.toNat_inj.mp (value.trans fits.toNat_epoch.symm)

theorem Holds.migrateOne
    (ran : migrateOne contract s msg groupSignature bClaims = .ok (s', epoch))
    (parsed : Parsers.extractBClaims bClaims = .ok claims) :
    epoch = s'.epoch ∧ Holds contract s' (.migrated contract msg.number claims :: log) := by
  simp only [Snapshots.migrateOne, mod256, ok_iff', parse_ok_iff, parsed, Except.ok.injEq] at ran
  obtain ⟨_, rfl, _, ⟨positive, rfl⟩, multiple, _, _, _, epochOf, _, _, written, rfl, rfl⟩ := ran
  have height : claims.height.toNat = claims.height.toNat / contract.epochLength *
      contract.epochLength :=
    (Nat.div_mul_cancel (Nat.dvd_of_mod_eq_zero multiple)).symm
  have nonzero := Parsers.extractBClaims_height parsed
  have fits : Commit.Fits contract (.migrated contract msg.number claims) := by
    refine ⟨Nat.pos_of_ne_zero fun zero => nonzero ?_, height, nonzero⟩
    change claims.height.toNat / contract.epochLength = 0 at zero
    rw [zero, Nat.zero_mul] at height
    exact UInt32.toNat_inj.mp height
  obtain ⟨higher, rfl, rfl⟩ := setSnapshot_ok fits written
  exact ⟨Except.ok.inj (epochOf.symm.trans fits.getEpochFromHeight),
    holds.push fits higher (absurd · Bool.false_ne_true)⟩

theorem Holds.migrateLoop
    (ran : migrateLoop contract msg pairs s epoch = .ok (s', epoch'))
    (parsed : (pairs.map Prod.snd).mapM Parsers.extractBClaims = .ok claims) :
    (epoch' = s'.epoch ∨ pairs = []) ∧
      Holds contract s' ((claims.map (.migrated contract msg.number)).reverse ++ log) := by
  induction pairs generalizing s log epoch claims with
  | nil =>
    obtain ⟨rfl, rfl⟩ := Prod.mk.inj (pure_ok_iff.mp ran)
    obtain rfl : [] = claims := pure_ok_iff.mp parsed
    exact ⟨.inr rfl, holds⟩
  | cons pair rest ih =>
    simp only [Snapshots.migrateLoop, ok_iff'] at ran
    obtain ⟨middle, epoch'', first, onward⟩ := ran
    simp only [map_cons, mapM_cons, ok_iff] at parsed
    obtain ⟨claim, here, later, others, rfl⟩ := parsed
    obtain ⟨same, step⟩ := holds.migrateOne first here
    obtain ⟨final, all⟩ := ih step onward others
    refine ⟨.inl ?_, by simpa using all⟩
    rcases final with same' | rfl
    · exact same'
    · obtain ⟨rfl, rfl⟩ := Prod.mk.inj (pure_ok_iff.mp onward)
      exact same

theorem Holds.migrateSnapshots
    (ran : migrateSnapshots contract s msg groupSignature bClaims = .ok s')
    (parsed : bClaims.mapM Parsers.extractBClaims = .ok claims) :
    Holds contract s' ((claims.map (.migrated contract msg.number)).reverse ++ log) := by
  simp only [Snapshots.migrateSnapshots, ok_iff'] at ran
  obtain ⟨_, _, _, ⟨lengths, nonempty⟩, middle, epoch, loop, rfl⟩ := ran
  have second : (groupSignature.zip bClaims).map Prod.snd = bClaims := map_snd_zip (by omega)
  obtain ⟨final, all⟩ := holds.migrateLoop loop (second.symm ▸ parsed)
  refine all.congr rfl ?_
  refine final.resolve_right fun empty => nonempty ?_
  have length := congrArg length empty
  simp only [length_zip, length_nil] at length
  omega

end

theorem Run.holds (run : Run contract s log) : Holds contract s log := by
  induction run with
  | initial => exact .initial
  | initializeStorage _ ran ih =>
    simp only [Snapshots.initializeStorage, ok_iff] at ran
    obtain ⟨_, _, _, _, rfl⟩ := ran
    exact ih.congr rfl rfl
  | setSnapshotDesperationDelay _ ran ih | setSnapshotDesperationFactor _ ran ih
  | setMinimumIntervalBetweenSnapshots _ ran ih =>
    obtain ⟨_, _, done⟩ := bind_ok_iff.mp ran
    exact pure_ok_iff.mp done ▸ ih.congr rfl rfl
  | snapshot _ ran parsed ih => exact ih.snapshot ran parsed
  | migrate _ ran parsed ih => exact ih.migrateSnapshots ran parsed

theorem getSnapshot_ok_iff : getSnapshot contract s e = .ok x ↔ UInt32.ofNat e = 0 ∧ .zero = x ∨
    UInt32.ofNat e ≠ 0 ∧ s.snapshots (slotOf (UInt32.ofNat e)) = x ∧
      getEpochFromHeight contract x.blockClaims.height = .ok (UInt32.ofNat e) := by
  unfold getSnapshot getSnapshot32
  by_cases zero : UInt32.ofNat e = 0
  · simp [zero, pure_ok_iff]
  · simp only [zero, if_false, RingBuffer.get, indexFor, ok_iff']
    constructor
    · rintro ⟨_, ⟨_, ⟨_, rfl⟩, rfl⟩, _, epoch, rfl, rfl⟩
      exact .inr ⟨zero, rfl, epoch⟩
    · rintro (⟨first, _⟩ | ⟨_, rfl, epoch⟩)
      · exact absurd first id
      · exact ⟨_, ⟨_, ⟨zero, rfl⟩, rfl⟩, _, epoch, rfl, rfl⟩

theorem Holds.committed (holds : Holds contract s log) (positive : 1 ≤ e) (small : e < 2 ^ 32)
    (used : (s.snapshots (slotOf (UInt32.ofNat e))).blockClaims.height ≠ 0)
    (ran : getSnapshot contract s e = .ok x) : Committed contract log e x := by
  have value : (UInt32.ofNat e).toNat = e := UInt32.toNat_ofNat_of_lt small
  rcases getSnapshot_ok_iff.mp ran with ⟨zero, _⟩ | ⟨_, rfl, epoch⟩
  · rw [zero] at value
    exact absurd positive (by simp [← value])
  rcases holds.slots (slotOf (UInt32.ofNat e)) with unused | ⟨commit, mem, place, held⟩
  · rw [unused] at used
    exact absurd rfl used
  have fits := holds.fits commit mem
  obtain rfl : commit.epoch = e := by
    rw [held] at epoch
    have same := Except.ok.inj (fits.getEpochFromHeight.symm.trans epoch)
    rw [← fits.toNat_epoch, same, value]
  refine ⟨held ▸ fits.height, ⟨commit, mem, rfl, held.symm⟩, fun other otherMember same => ?_⟩
  have otherFits := holds.fits other otherMember
  have slot : other.slot = slotOf (UInt32.ofNat commit.epoch) := by rw [← otherFits.slotOf, same]
  rcases holds.below other otherMember with kept | lower
  · rw [← kept, slot]
  · rw [slot, held, UInt32.lt_iff_toNat_lt, otherFits.height, fits.height, same] at lower
    exact absurd lower (lt_irrefl _)

/-- What `getSnapshot` returns for an epoch is what was committed for it, exactly if the epoch fits
32 bits and its slot was written or the contract can tell that the slot belongs to another epoch.
The epochs of up to six calls of `snapshot` in a row can be retrieved after the last of them. -/
theorem Run.retrieval (run : Run contract s log) :
    (∀ e, 1 ≤ e →
      ((∀ x, getSnapshot contract s e = .ok x → Committed contract log e x) ↔
        Addressed contract s e)) ∧
    ∀ i commit, i < 6 → log[i]? = some commit → (∀ other ∈ log.take (i + 1), other.called = true) →
      commit.epoch + i = s.epoch.toNat ∧ getSnapshot contract s commit.epoch =
        .ok commit.snapshot := by
  have holds := run.holds
  refine ⟨fun e positive => ⟨fun right => ?_, ?_⟩, fun i commit few found called => ?_⟩
  · by_contra unaddressed
    simp only [Addressed, not_or, not_and, not_not] at unaddressed
    obtain ⟨unused, taken⟩ := unaddressed
    have wrong : ∀ x, getSnapshot contract s e = .ok x → x.blockClaims.height ≠ 0 ∧ e < 2 ^ 32 := by
      intro x ran
      obtain ⟨commit, mem, rfl, rfl⟩ := (right x ran).committed
      exact ⟨(holds.fits commit mem).nonzero, (holds.fits commit mem).epoch_lt⟩
    by_cases zero : UInt32.ofNat e = 0
    · exact (wrong .zero (getSnapshot_ok_iff.mpr (.inl ⟨zero, rfl⟩))).1 rfl
    · obtain ⟨nonzero, small⟩ := wrong _ (getSnapshot_ok_iff.mpr (.inr ⟨zero, rfl, taken zero⟩))
      exact nonzero (unused small)
  · rintro (⟨small, used⟩ | ⟨nonzero, other⟩) x ran
    · exact holds.committed positive small used ran
    · rcases getSnapshot_ok_iff.mp ran with ⟨zero, _⟩ | ⟨_, rfl, epoch⟩
      · exact absurd zero nonzero
      · exact absurd epoch other
  · obtain ⟨epoch, held⟩ := holds.recent i commit few found called
    have fits := holds.fits commit (mem_of_getElem? found)
    refine ⟨epoch, getSnapshot_ok_iff.mpr (.inr ⟨fits.epoch_ne, ?_, fits.getEpochFromHeight⟩)⟩
    rw [fits.slotOf, held]

end

def sampleContract : Contract := ⟨1, 1024, 21, fun _ => 0, fun _ _ _ => true⟩

def sampleMsg : Msg where
  sender := 7
  number := 300
  isValidator := true
  isConsensusRunning := true
  isMaintenanceScheduled := false
  pauseConsensus := .ok ()
  getLastRoundParticipantIndex := .ok 1
  getValidatorsCount := 1
  getMasterPublicKeyHash := 0
  updateHead := fun _ => .ok ()

def sampleBClaims (epoch : ℕ) : Bytes :=
  [0, 0, 0, 0, 2, 0, 4, 0] ++ [21, 0, 0, 0, 0, UInt8.ofNat (4 * epoch), 0, 0, 1, 0, 0, 0] ++
    List.replicate 164 0

def sampleSnapshot (epoch : ℕ) : Snapshot := ⟨300, ⟨21, UInt32.ofNat (1024 * epoch), 1, 0, 0, 0, 0⟩⟩

def sampleCommit (epoch : ℕ) : Commit := ⟨epoch, sampleSnapshot epoch, true⟩

def sampleLog : ℕ → List Commit
  | 0 => []
  | count + 1 => sampleCommit (count + 1) :: sampleLog count

def sampleStorage : ℕ → Storage
  | 0 => .initial
  | count + 1 => { sampleStorage count with
      epoch := UInt32.ofNat (count + 1)
      snapshots := Function.update (sampleStorage count).snapshots (sampleCommit (count + 1)).slot
        (sampleSnapshot (count + 1)) }

theorem sampleRun {count : ℕ} (few : count ≤ 7) :
    Run sampleContract (sampleStorage count) (sampleLog count) := by
  induction count with
  | zero => exact .initial
  | succ count ih =>
    have below : count < 7 := few
    have taken : snapshot sampleContract (sampleStorage count) sampleMsg (replicate 192 0)
        (sampleBClaims (count + 1)) = .ok (sampleStorage (count + 1), true) := by
      interval_cases count <;> decide +kernel
    have parsed : Parsers.extractBClaims (sampleBClaims (count + 1)) =
        .ok (sampleSnapshot (count + 1)).blockClaims := by
      interval_cases count <;> decide +kernel
    have epoch : (sampleStorage count).epoch.toNat = count := by
      interval_cases count <;> rfl
    have run := (ih below.le).snapshot taken parsed
    rwa [epoch] at run

theorem Run.retrieval_sample :
    getSnapshot sampleContract (sampleStorage 7) 2 = .ok (sampleSnapshot 2) :=
  ((Run.retrieval (sampleRun le_rfl)).2 5 (sampleCommit 2) (by norm_num) rfl (by decide)).2

/-- Before epoch 1 is committed its snapshot is all zeros, and after it epoch 2^32 + 1 has that of
epoch 1. -/
theorem getSnapshot_confused : Run sampleContract .initial [] ∧
    getSnapshot sampleContract .initial 1 = .ok .zero ∧ ¬ Committed sampleContract [] 1 .zero ∧
    Run sampleContract (sampleStorage 1) [sampleCommit 1] ∧
    getSnapshot sampleContract (sampleStorage 1) (2 ^ 32 + 1) = .ok (sampleSnapshot 1) ∧
    ¬ Committed sampleContract [sampleCommit 1] (2 ^ 32 + 1) (sampleSnapshot 1) := by
  refine ⟨.initial, by decide, ?_, sampleRun (by decide), by decide, ?_⟩
  · rintro ⟨_, ⟨_, mem, _⟩, _⟩
    cases mem
  · rintro ⟨height, _⟩
    exact absurd height (by decide)

end AliceNet.Bridge.Snapshots
