import AliceNet.Consensus.RoundState

/-! What setting a vote does to the record of a validator. -/

namespace AliceNet.Consensus

def HR.key (hr : HR) : ℕ ×ₗ ℕ := toLex (hr.height, hr.round)

theorem HR.key_injective : Function.Injective HR.key := by
  intro a b same
  cases a
  cases b
  simpa [HR.key] using same

noncomputable instance : LinearOrder HR := LinearOrder.lift' HR.key HR.key_injective

variable {a b : HR}

theorem HR.lt_iff : a < b ↔ a.height < b.height ∨ a.height = b.height ∧ a.round < b.round := by
  show a.key < b.key ↔ _
  simp [HR.key, Prod.Lex.toLex_lt_toLex]

theorem HR.lt_of_height (below : a.height < b.height) : a < b := HR.lt_iff.mpr (.inl below)

theorem HR.height_le (le : a ≤ b) : a.height ≤ b.height := by
  rcases le.lt_or_eq with lt | rfl
  · rcases HR.lt_iff.mp lt with below | ⟨same, -⟩
    · exact below.le
    · exact same.le
  · exact le_rfl

theorem relateH_lt : relateH a b = .lt ↔ a.height < b.height := by
  simp [relateH, compare_lt_iff_lt]

theorem relateH_eq : relateH a b = .eq ↔ a.height = b.height := by simp [relateH]

theorem relateHR_eq : relateHR a b = .eq ↔ a = b := by
  cases a
  cases b
  simp [relateHR, Ordering.then_eq_eq]

theorem relateHR_lt : relateHR a b = .lt ↔ a < b := by
  simp [relateHR, HR.lt_iff, Ordering.then_eq_lt, compare_lt_iff_lt]

namespace RoundState

variable {crypto : Crypto} {b : RoundState}

theorem currentHR_iff : currentHR a vote = true ↔ ∃ v, vote = some v ∧ v.hr = a := by
  cases vote with
  | none => simp [currentHR]
  | some v =>
    simp only [currentHR, beq_iff_eq, relateHR_eq, Option.some.injEq, exists_eq_left']
    exact eq_comm

structure Refused (b b' : RoundState) : Prop where
  groupKey : b'.groupKey = b.groupKey
  rCert : b'.rCert = b.rCert
  proposal : b'.proposal = b.proposal
  preVote : b'.preVote = b.preVote
  preVoteNil : b'.preVoteNil = b.preVoteNil
  preCommit : b'.preCommit = b.preCommit
  preCommitNil : b'.preCommitNil = b.preCommitNil
  nextRound : b'.nextRound = b.nextRound
  nextHeight : b'.nextHeight = b.nextHeight ∨ b'.nextHeight = none

theorem Refused.refl (b : RoundState) : Refused b b :=
    ⟨rfl, rfl, rfl, rfl, rfl, rfl, rfl, rfl, .inl rfl⟩

variable {b : RoundState} {v : Message}

theorem Refused.trans (first : Refused b b') (second : Refused b' b'') : Refused b b'' where
  groupKey := second.groupKey.trans first.groupKey
  rCert := second.rCert.trans first.rCert
  proposal := second.proposal.trans first.proposal
  preVote := second.preVote.trans first.preVote
  preVoteNil := second.preVoteNil.trans first.preVoteNil
  preCommit := second.preCommit.trans first.preCommit
  preCommitNil := second.preCommitNil.trans first.preCommitNil
  nextRound := second.nextRound.trans first.nextRound
  nextHeight := by
    rcases second.nextHeight with same | dropped
    · rw [same]
      exact first.nextHeight
    · exact .inr dropped

theorem Refused.hr (refused : Refused b b') : b'.hr = b.hr := by
  simp [RoundState.hr, refused.rCert]

theorem resetNHForDBR_refused (b : RoundState) (v : Message) : Refused b (b.resetNHForDBR v) := by
  unfold resetNHForDBR
  split
  · refine ⟨rfl, rfl, rfl, rfl, rfl, rfl, rfl, rfl, ?_⟩
    cases held : b.nextHeight with
    | none => simp
    | some nh => by_cases dead : isDeadBlockRound nh.rCert.hr <;> simp [Option.filter, dead]
  · exact Refused.refl b

theorem setTypeConflict_refused (v : Message) (internal : Bool) :
    Refused b (b.setTypeConflict v internal) := by
  cases internal <;> cases v <;> exact ⟨rfl, rfl, rfl, rfl, rfl, rfl, rfl, rfl, .inl rfl⟩

/-- The places that must be empty for a vote of the current round. -/
def Vacant (b : RoundState) : Message → Prop
  | .rCert _ => True
  | .proposal _ => b.proposal = none
  | .preVote _ => b.preVote = none ∧ b.preVoteNil = none
  | .preVoteNil _ => b.preVote = none ∧ b.preVoteNil = none
  | .preCommit _ => b.preCommit = none ∧ b.preCommitNil = none
  | .preCommitNil _ => b.preCommit = none ∧ b.preCommitNil = none
  | .nextRound _ => b.nextRound = none
  | .nextHeight _ => True

def Joins (b : RoundState) : Message → Prop
  | .nextHeight v => v.rCert.hr.height = b.hr.height
  | v => v.hr = b.hr

def Ahead (b : RoundState) : Message → Prop
  | .nextHeight v => b.hr.height < v.rCert.hr.height
  | v => b.hr < v.hr

theorem Ahead.lt (ahead : b.Ahead v) : b.hr < v.hr := by
  cases v with
  | nextHeight nh => exact HR.lt_of_height ahead
  | _ => exact ahead

private theorem ahead_of_height (higher : b.hr.height < v.hr.height) : b.Ahead v := by
  cases v with
  | nextHeight nh => exact higher
  | _ => exact HR.lt_of_height higher

/-- The record after a vote, with the checks that a vote of the current round passed. -/
inductive Filed (crypto : Crypto) (v : Message) (b : RoundState) : RoundState → Prop
  | ahead : b.Ahead v → Filed crypto v b (b.setReset v)
  | joins : b.Joins v → checkSameTypeConflict (b.resetNHForDBR v) v = .ok () →
      conflicts crypto (b.resetNHForDBR v) v = .ok false → checkTypeStale (b.resetNHForDBR v) v =
        .ok () →
      Filed crypto v b ((b.resetNHForDBR v).setType v)

theorem setReset_rCert (b : RoundState) (v : Message) : (b.setReset v).rCert = v.extractRCert := by
  cases v <;> simp [setReset, reset, setType, initial, Message.extractRCert]

theorem setType_rCert (vote : ∀ rc, v ≠ .rCert rc) : (b.setType v).rCert = b.rCert := by
  cases v with
  | rCert rc => exact absurd rfl (vote rc)
  | _ => rfl

open Stateful Outcome

theorem vacant_of_checks (fit : checkSameTypeConflict b v = .ok ())
    (fresh : checkTypeStale b v = .ok ()) : b.Vacant v := by
  cases v <;> simp_all [checkSameTypeConflict, checkTypeStale, Vacant, bind_ok_iff]

private theorem checkStaleAndConflict_ends (v : Message) :
    Ends (checkStaleAndConflict crypto v true) b
      (fun ok b' => if ok then b' = b.resetNHForDBR v ∧ checkSameTypeConflict b' v = .ok () ∧
        conflicts crypto b' v = .ok false ∧ checkTypeStale b' v = .ok () else Refused b b')
      (fun _ b' => Refused b b') := by
  have dropped := resetNHForDBR_refused b v
  simp only [checkStaleAndConflict, checkConflict, ends_bind, ends_ite, ends_modify, ends_get,
    ends_lift, ends_pure, if_true, Bool.false_eq_true, if_false]
  refine ⟨fun _ fit =>
    ⟨fun conflict agrees => ⟨fun _ => ?_, fun free => ⟨fun _ fresh => ?_, fun _ _ => dropped⟩⟩,
    fun _ _ => dropped⟩, fun _ _ => dropped⟩
  · exact dropped.trans (setTypeConflict_refused v true)
  · rw [Bool.not_eq_true] at free
    exact ⟨trivial, fit, free ▸ agrees, fresh⟩

theorem checkAndSet_ends (v : Message) (joins : b.Joins v) :
    Ends (checkAndSet crypto v) b
      (fun ok b' => if ok then Filed crypto v b b' else Refused b b') (fun _ b' =>
        Refused b b') := by
  simp only [checkAndSet, ends_bind, ends_ite, ends_modify, ends_pure]
  refine (checkStaleAndConflict_ends v).mono ?_ (fun _ _ refused => refused)
  intro ok b' outcome
  cases ok with
  | false => exact ⟨fun _ => outcome, fun impossible => absurd rfl impossible⟩
  | true =>
    refine ⟨fun impossible => by simp at impossible, fun _ => ?_⟩
    obtain ⟨rfl, fit, agrees, fresh⟩ := outcome
    exact .joins joins fit agrees fresh

private theorem joins_of_hr (same : v.hr = b.hr) : b.Joins v := by
  cases v with
  | nextHeight nh => exact congrArg HR.height same
  | _ => exact same

private theorem genericSet_ends (round : ∀ nh, v ≠ .nextHeight nh) : Ends (genericSet crypto v) b
      (fun ok b' => if ok then Filed crypto v b b' else Refused b b') (fun _ b' =>
        Refused b b') := by
  have unchanged := Refused.refl b
  simp only [genericSet, ends_bind, ends_get]
  cases heights : relateH b.hr v.hr with
  | gt => simpa using unchanged
  | lt => simpa using Filed.ahead (ahead_of_height (relateH_lt.mp heights))
  | eq =>
    cases rounds : relateHR b.hr v.hr with
    | lt =>
      have ahead : b.Ahead v := by
        cases v with
        | nextHeight nh => exact absurd rfl (round nh)
        | _ => exact relateHR_lt.mp rounds
      simpa using Filed.ahead ahead
    | eq => exact checkAndSet_ends v (joins_of_hr (relateHR_eq.mp rounds).symm)
    | gt =>
      simp only [ends_bind, ends_lift]
      refine ⟨fun _ fresh => ?_, fun _ _ => unchanged⟩
      -- only a `NextHeight` passes here
      cases v with
      | nextHeight nh => exact absurd rfl (round nh)
      | _ => simp [staleAgainst, throw, throwThe, MonadExceptOf.throw] at fresh

private theorem setVote_ends (round : ∀ nh, v ≠ .nextHeight nh) :
    Ends (setVote crypto barred barText corruptText v) b
      (fun ok b' => if ok then Filed crypto v b b' else Refused b b') (fun _ b' =>
        Refused b b') := by
  simp only [setVote, ends_bind, ends_ite, ends_throw, ends_pure]
  refine ⟨fun _ => Refused.refl b, fun _ => (genericSet_ends round).mono ?_ (fun _ _ refused =>
    refused)⟩
  intro ok b' outcome
  cases ok with
  | false => exact ⟨fun _ => outcome, fun _ => outcome⟩
  | true => exact ⟨fun impossible => by simp at impossible, fun _ => outcome⟩

private theorem setNextHeight_ends (v : NextHeight) :
    Ends (setNextHeight crypto v) b
      (fun ok b' => if ok then Filed crypto (.nextHeight v) b b' else Refused b b') (fun _ b' =>
        Refused b b') := by
  have unchanged := Refused.refl b
  simp only [setNextHeight, ends_bind, ends_ite, ends_throw, ends_get]
  refine ⟨fun _ => unchanged, fun _ => ?_⟩
  cases heights : relateH b.hr v.rCert.hr with
  | gt => simpa using unchanged
  | lt => simpa using Filed.ahead (v := .nextHeight v) (relateH_lt.mp heights)
  | eq => exact checkAndSet_ends _ (relateH_eq.mp heights).symm

theorem set_files (vote : ∀ rc, v ≠ .rCert rc) : Ends (set crypto v) b
      (fun ok b' => if ok then Filed crypto v b b' else Refused b b') (fun _ b' =>
        Refused b b') := by
  cases v with
  | rCert rc => exact absurd rfl (vote rc)
  | nextHeight nh => exact setNextHeight_ends nh
  | _ => exact setVote_ends nofun

end RoundState

end AliceNet.Consensus
