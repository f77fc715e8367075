import AliceNet.Consensus.Signing

/-!
What each step of the engine signs, whether it returns or fails.
-/

namespace AliceNet.Consensus

open Stateful Keeps Session

variable {α τ : Type} {engine : Engine α τ} {now : ℕ} {storage : Storage}

section Spoken

variable {due pledge : PClaims → Prop} {rounds : Prop}

theorem Proposal.sign_spoken (p : Proposal) : Keeps (Spoken due pledge rounds) (p.sign engine) :=
  of_lift.bind fun _ => (Consensus.sign_spoken nofun nofun nofun).bind fun _ => of_pure _

private theorem castNewProposalValue_spoken :
    Keeps (Spoken due pledge rounds) (castNewProposalValue engine storage) := by
  refine ifValidator_keeps <| roundStates_keeps.bind fun rs => ?_
  refine ((onNode_keeps getValidValue_keeps).mono Kept.spoken).bind fun value => ?_
  refine (Proposal.sign_spoken _).bind fun p => (discard_keeps of_lift).bind fun _ => ?_
  refine ((updateValidValue_keeps p).mono Kept.spoken).bind fun _ => ?_
  exact setOwn_spoken.bind fun _ => setBroadcast_spoken

private theorem castProposalFromValue_spoken :
    Keeps (Spoken due pledge rounds) (castProposalFromValue engine prop) := by
  refine ifValidator_keeps <| roundStates_keeps.bind fun rs => bind ?_ fun p => ?_
  · exact of_lift.bind fun _ => of_lift.bind fun _ => Proposal.sign_spoken _
  · refine (discard_keeps of_lift).bind fun _ => ?_
    exact setOwn_spoken.bind fun _ => setBroadcast_spoken

theorem castPreVote_spoken (p : Proposal) :
    Keeps (Spoken due pledge rounds) (castPreVote engine now p) := by
  refine ifValidator_keeps <| bind ?_ fun pv => (discard_keeps of_lift).bind fun _ => ?_
  · exact of_lift.bind fun _ => (sign_spoken nofun nofun nofun).bind fun _ => of_pure _
  · refine onValidatingState_spoken.bind fun _ => bind ?_ fun _ => setBroadcast_spoken
    exact onValidatingState_spoken.bind fun _ => setOwn_spoken

theorem castPreVoteNil_spoken : Keeps (Spoken due pledge rounds) (castPreVoteNil engine now) := by
  refine publish_spoken ?_ fun v => onValidatingState_spoken.bind fun _ => setOwn_spoken
  refine roundStates_keeps.bind fun rs => of_lift.bind fun _ => ?_
  exact (sign_spoken nofun nofun nofun).bind fun _ => of_pure _

private theorem castPreVoteWithLock_spoken :
    Keeps (Spoken due pledge rounds) (castPreVoteWithLock engine now lock p) :=
  ifValidator_keeps <| of_lift.bind fun _ =>
    ite (fun _ => castPreVote_spoken p) fun _ => castPreVoteNil_spoken

theorem castPreCommit_spoken
    (allowed : ∀ pv, first preVotes = .ok pv → pledge pv.proposal.pClaims) :
    Keeps (Spoken due pledge rounds) (castPreCommit engine now preVotes) := by
  refine publish_spoken ?_ fun v => onValidatingState_spoken.bind fun _ =>
    setOwn_spoken.bind fun _ => onValidatingState_spoken
  refine bind_lift fun pv head => of_lift.bind fun _ => ?_
  refine (sign_spoken nofun ?_ nofun).bind fun _ => of_pure _
  rintro claims ⟨⟩
  exact allowed pv head

theorem castPreCommitNil_spoken :
    Keeps (Spoken due pledge rounds) (castPreCommitNil engine now) := by
  refine publish_spoken ?_ fun v => onValidatingState_spoken.bind fun _ => setOwn_spoken
  refine roundStates_keeps.bind fun rs => of_lift.bind fun _ => ?_
  exact (sign_spoken nofun nofun nofun).bind fun _ => of_pure _

theorem castNextRound_spoken (allowed : rounds) :
    Keeps (Spoken due pledge rounds) (castNextRound engine) := by
  refine publish_spoken ?_ fun v => setOwn_spoken
  refine roundStates_keeps.bind fun rs => of_lift.bind fun _ => ?_
  refine of_lift.bind fun _ => of_lift.bind fun _ => of_lift.bind fun _ => ?_
  refine (bnSign_keeps.mono Kept.spoken).bind fun _ => ?_
  exact (sign_spoken nofun nofun fun _ _ => allowed).bind fun _ => of_pure _

theorem castNextHeightFromPreCommits_spoken
    (allowed : ∀ pc, first pcl = .ok pc → due pc.proposal.pClaims) :
    Keeps (Spoken due pledge rounds) (castNextHeightFromPreCommits engine pcl) := by
  refine publish_spoken ?_ setMostRecentNextHeight_spoken
  exact bind_lift fun pc head => of_lift.bind fun _ => NextHeight.sign_spoken (allowed pc head)

theorem setMostRecentRCert_spoken (rc : RCert) :
    Keeps (Spoken due pledge rounds) (setMostRecentRCert now rc : Step α τ Unit) :=
  onValidatingState_spoken.bind fun _ => onOwn_spoken

private theorem castNextRoundRCert_spoken :
    Keeps (Spoken due pledge rounds) (castNextRoundRCert engine now nrl) := by
  refine publish_spoken ?_ setMostRecentRCert_spoken
  refine roundStates_keeps.bind fun rs => ?_
  refine (bnAggregate_keeps.mono Kept.spoken).bind fun _ => ?_
  exact of_lift.bind fun _ => of_pure _

private theorem onNode_spoken (keeps : Keeps Node.Silent step) :
    Keeps (Spoken due pledge rounds) (onNode step) :=
  keeps.focus fun _ _ silent => .of_same silent

theorem setMostRecentBlockHeader_spoken :
    Keeps (Spoken due pledge rounds) (setMostRecentBlockHeader engine now v) := by
  refine roundStates_keeps.bind fun rs => ?_
  refine (onNode_spoken applyState_silent).bind fun _ => of_lift.bind fun rc => ?_
  refine (setMostRecentRCert_spoken rc).bind fun _ => ?_
  refine (onNode_spoken (setCommittedBlockHeader_silent v)).bind fun _ => ?_
  exact of_modify fun _ => .of_same rfl

theorem castNewCommittedBlockHeader_spoken :
    Keeps (Spoken due pledge rounds) (castNewCommittedBlockHeader engine now nhl) := by
  refine bind ?_ fun header => ?_
  · refine roundStates_keeps.bind fun rs => ?_
    refine (bnAggregate_keeps.mono Kept.spoken).bind fun _ => of_lift.bind fun _ => ?_
    exact of_lift.bind fun _ => of_lift.bind fun _ => of_pure _
  · refine (discard_keeps of_lift).bind fun _ => (discard_keeps of_lift).bind fun _ => ?_
    exact setMostRecentBlockHeader_spoken

private theorem castNewCommittedBlockFromProposalAndRCert_spoken (p : Proposal) (rc : RCert) :
    Keeps (Spoken due pledge rounds) (castNewCommittedBlockFromProposalAndRCert engine now p rc) :=
  (discard_keeps of_lift).bind fun _ => setMostRecentBlockHeader_spoken

private theorem doPendingProposalStep_spoken :
    Keeps (Spoken due pledge rounds) (doPendingProposalStep engine storage) := by
  refine ifValidator_keeps <| roundStates_keeps.bind fun rs => ?_
  refine ite (fun _ => of_pure _) fun _ => ite (fun _ => ?_) fun _ => ite (fun _ => ?_) fun _ => ?_
  · exact of_lift.bind fun _ => castProposalFromValue_spoken
  · exact of_lift.bind fun _ => castProposalFromValue_spoken
  · exact castNewProposalValue_spoken

private theorem proposalValid_keeps (rs : RoundStates) (p : Proposal) :
    Keeps Kept (proposalValid engine rs p) := by
  refine onNode_keeps (bind ?_ fun found => ?_)
  · exact (getTxs_keeps.bind fun _ => of_pure _).tryCatch fun _ => of_pure _
  · cases found with
    | none => exact of_pure _
    | some txs =>
      refine isValid_keeps.tryCatch fun e => ?_
      exact ite (fun _ => of_pure _) fun _ => of_throw _

private theorem doPendingPreVoteStep_spoken :
    Keeps (Spoken due pledge rounds) (doPendingPreVoteStep engine now) := by
  refine ifValidator_keeps <| roundStates_keeps.bind fun rs => ?_
  refine ite (fun _ => ?_) fun _ => ?_
  · refine onValidatingState_spoken.bind fun _ => of_lift.bind fun _ => of_get.bind fun _ => ?_
    exact of_lift.bind fun _ => (Proposal.sign_spoken _).bind fun p => castPreVote_spoken p
  · cases rs.getCurrentProposal with
    | none => exact castPreVoteNil_spoken
    | some p =>
      refine ite (fun _ => ?_) fun _ => ite (fun _ => ?_) fun _ => ?_
      · exact of_lift.bind fun _ => castPreVoteWithLock_spoken
      · exact of_lift.bind fun _ => castPreVoteWithLock_spoken
      · refine ((proposalValid_keeps rs p).mono Kept.spoken).bind fun _ => ?_
        exact ite (fun _ => castPreVote_spoken p) fun _ => castPreVoteNil_spoken

private theorem tryValidValue_keeps :
    Keeps Kept (do
      let p ← getProposal proposals
      discard (tolerate Fault.tolerable (updateValidValue engine p))) :=
  (getProposal_keeps proposals).bind fun p => discard_keeps (updateValidValue_keeps p).tolerate

private theorem doPreVoteNilStep_spoken :
    Keeps (Spoken due pledge rounds) (doPreVoteNilStep engine now) := by
  refine ifValidator_keeps <| roundStates_keeps.bind fun rs => ?_
  have rest : Keeps (Spoken due pledge rounds) (if rs.getCurrentThreshold ≤
    rs.currentPreVoteNils then
      castPreCommitNil engine now else pure ()) := ite (fun _ => castPreCommitNil_spoken) fun _ =>
        of_pure _
  refine ite (fun _ => ?_) fun _ => rest
  refine (getProposal_keeps _).bind fun p => ?_
  exact ((updateValidValue_keeps p).mono Kept.spoken).bind fun _ => rest

section Commit

variable {pcl : List PreCommit} (allowed : ∀ pc, first pcl = .ok pc → due pc.proposal.pClaims)
include allowed

theorem commitTo_spoken : Keeps (Spoken due pledge rounds) (commitTo engine pcl) :=
  (getProposal_keeps _).bind fun p => ((updateValidValue_keeps p).mono Kept.spoken).bind fun _ =>
    castNextHeightFromPreCommits_spoken allowed

private theorem tryCommitTo_spoken : Keeps (Spoken due pledge rounds) (tryCommitTo engine pcl) :=
  (getProposal_keeps _).bind fun p => ((updateValidValue_keeps p).tolerate.mono Kept.spoken).bind
      fun _ =>
    ite (fun _ => (castNextHeightFromPreCommits_spoken allowed).tolerate) fun _ => of_pure _

end Commit

theorem doRoundJump_spoken : Keeps (Spoken due pledge rounds) (doRoundJump engine now rc) := by
  refine roundStates_keeps.bind fun rs => ite (fun _ => ?_) fun _ => setMostRecentRCert_spoken rc
  refine (getProposal_keeps _).bind fun p => bind ?_ fun _ => setMostRecentRCert_spoken rc
  exact discard_keeps ((updateValidValue_keeps p).tolerate.mono Kept.spoken)

private theorem doCheckValidValue_spoken :
    Keeps (Spoken due pledge rounds) (doCheckValidValue engine now) := by
  refine roundStates_keeps.bind fun rs => ite (fun _ => ?_) fun _ => ite (fun _ => ?_) fun _ =>
    ite (fun _ => ?_) fun _ => of_pure _
  · refine of_lift.bind fun nh => bind ((updateValidValue_keeps _).tolerate.mono Kept.spoken) ?_
    exact fun _ => ite (fun _ => discard_keeps castNewCommittedBlockHeader_spoken.tolerate)
      fun _ => of_pure _
  · exact tryValidValue_keeps.mono Kept.spoken
  · exact tryValidValue_keeps.mono Kept.spoken

private theorem doNextHeightStep_spoken :
    Keeps (Spoken due pledge rounds) (doNextHeightStep engine now) :=
  ifValidator_keeps <| roundStates_keeps.bind fun _ =>
    ite (fun _ => discard_keeps castNewCommittedBlockHeader_spoken.tolerate) fun _ => of_pure _

private theorem jumpOverEmptyBlock_spoken (rs : RoundStates) (rcert : RCert) :
    Keeps (Spoken due pledge rounds) (jumpOverEmptyBlock engine now rs rcert) := by
  refine of_lift.bind fun txRoot => of_get.bind fun _ => of_lift.bind fun headerRoot => ?_
  refine of_lift.bind fun bhash => ite (fun _ => of_pure _) fun _ => ?_
  refine ((onNode_keeps isValid_keeps).mono Kept.spoken).bind fun ok => ?_
  refine ite (fun _ => of_pure _) fun _ => ?_
  split
  · exact of_pure _
  · exact setMostRecentBlockHeader_spoken.bind fun _ => of_pure _

private theorem doHeightJumpStep_spoken :
    Keeps (Spoken due pledge rounds) (doHeightJumpStep engine now rcert) := by
  refine roundStates_keeps.bind fun rs => ite (fun _ => of_pure _) fun _ => ?_
  refine ite (fun _ => of_pure _) fun _ => of_lift.bind fun value => ?_
  cases value with
  | none => exact jumpOverEmptyBlock_spoken rs rcert
  | some vv =>
    refine (castNewCommittedBlockFromProposalAndRCert_spoken vv rcert).tolerate.bind fun _ => ?_
    exact ite (fun _ => onValidatingState_spoken.bind fun _ => of_pure _) fun _ => of_pure _

end Spoken

section Speaks

def Session.Uttered (s t : Session α τ) : Prop :=
  ∃ before after, t.node.signed = s.node.signed ++ (before ++ after) ∧
    (∀ claims, .nextHeight claims ∈ before → Session.Due s.rs claims) ∧
    (∀ claims, .preCommit claims ∈ before → Session.Pledge s.rs claims) ∧
    (∀ claims, .nextRound claims ∉ before) ∧ (∀ claims, .nextHeight claims ∉ after) ∧
    ∀ claims, .preCommit claims ∉ after

theorem Session.Uttered.of_spoken {s t u : Session α τ}
    (first : s.Spoken (Due s.rs) (Pledge s.rs) False t)
    (second : t.Spoken (fun _ => False) (fun _ => False) True u) : s.Uttered u := by
  obtain ⟨before, signed, due, pledged, unsaid⟩ := first
  obtain ⟨after, signed', noHeight, noCommit, _⟩ := second
  refine ⟨before, after, ?_, due, pledged, unsaid, noHeight, noCommit⟩
  rw [signed', signed, List.append_assoc]

abbrev Speaks {β : Type} (step : Step α τ β) (s : Session α τ) : Prop :=
  Ends step s (fun _ t => s.Uttered t) fun _ t => s.Uttered t

variable {s : Session α τ}

theorem speaks_of_keeps (keeps : Keeps (Spoken (Due s.rs) (Pledge s.rs) False) step) :
    Speaks step s :=
  (keeps s).mono (fun _ t spoken => .of_spoken spoken (refl_of (Spoken _ _ _) t))
    fun _ t spoken => .of_spoken spoken (refl_of (Spoken _ _ _) t)

theorem speaks_of_rounds (keeps : Keeps (Spoken (fun _ => False) (fun _ => False) True) step) :
    Speaks step s :=
  (keeps s).mono (fun _ _ spoken => .of_spoken (refl_of (Spoken _ _ _) s) spoken)
    fun _ _ spoken => .of_spoken (refl_of (Spoken _ _ _) s) spoken

theorem ifValidator_speaks {cast : Step α τ Unit}
    (speaks : s.rs.isCurrentValidator = true → Speaks cast s) : Speaks (ifValidator cast) s :=
  ends_ite.mpr ⟨speaks, fun _ => speaks_of_keeps (of_pure ())⟩

private theorem doPreVoteStep_speaks : Speaks (doPreVoteStep engine now) s := by
  refine ifValidator_speaks fun validator =>
    ends_roundStates.mpr (ends_ite.mpr ⟨fun enough => ?_, fun _ => ?_⟩)
  · exact speaks_of_keeps (castPreCommit_spoken fun _ head => .counts validator enough head)
  · exact speaks_of_keeps (of_pure ())

private theorem doPendingPreCommit_speaks : Speaks (doPendingPreCommit engine now) s := by
  refine ifValidator_speaks fun validator =>
    ends_roundStates.mpr (ends_ite.mpr ⟨fun enough => ?_, fun _ => ?_⟩)
  · exact speaks_of_keeps (castPreCommit_spoken fun _ head => .counts validator enough.1 head)
  have rest : Keeps (Spoken (Due s.rs) (Pledge s.rs) False)
      (if s.rs.rCert.rClaims.round ≠ DEADBLOCKROUND then castPreCommitNil engine now else
          pure ()) :=
    ite (fun _ => castPreCommitNil_spoken) fun _ => of_pure _
  refine speaks_of_keeps (ite (fun _ => ?_) fun _ => rest)
  refine (getProposal_keeps _).bind fun p => bind ?_ fun _ => rest
  exact discard_keeps ((updateValidValue_keeps p).tolerate.mono Kept.spoken)

private theorem doPreCommitStep_speaks : Speaks (doPreCommitStep engine) s := by
  refine ifValidator_speaks fun validator =>
    ends_roundStates.mpr (ends_ite.mpr ⟨fun enough => ?_, fun _ => ?_⟩)
  · exact speaks_of_keeps (commitTo_spoken fun _ head => .commits validator enough head)
  · exact speaks_of_keeps (of_pure ())

private theorem doPreCommitNilStep_speaks : Speaks (doPreCommitNilStep engine) s := by
  refine ifValidator_speaks fun validator =>
    ends_roundStates.mpr (ends_ite.mpr ⟨fun enough => ?_, fun _ => ?_⟩)
  · exact speaks_of_keeps (commitTo_spoken fun _ head => .commits validator enough head)
  · exact speaks_of_rounds (ite (fun _ => castNextRound_spoken trivial) fun _ => of_pure _)

theorem tryCommit_speaks (validator : s.rs.isCurrentValidator = true)
    (rest : ∀ done, Keeps (Spoken (fun _ => False) (fun _ => False) True) (next done)) :
    Speaks (if s.rs.getCurrentThreshold ≤ s.rs.currentPreCommits.length then
      tryCommitTo engine s.rs.currentPreCommits >>= next else pure false >>= next) s := by
  refine ends_ite.mpr ⟨fun enough => ends_bind.mpr ?_, fun _ => speaks_of_rounds (rest false)⟩
  have tried : Keeps (Spoken (Due s.rs) (Pledge s.rs) False)
      (tryCommitTo engine s.rs.currentPreCommits) :=
    tryCommitTo_spoken fun _ head => .commits validator enough head
  refine (tried s).mono (fun done t spoken => ?_) fun _ t spoken =>
    .of_spoken spoken (refl_of (Spoken _ _ _) t)
  exact (rest done t).mono (fun _ _ later => .of_spoken spoken later) fun _ _ later =>
    .of_spoken spoken later

private theorem doPendingNext_speaks : Speaks (doPendingNext engine now storage) s := by
  refine ifValidator_speaks fun validator =>
    ends_roundStates.mpr (tryCommit_speaks validator fun done => ?_)
  exact ite (fun _ => castNextRound_spoken trivial) fun _ => of_pure _

theorem doNextRoundStep_speaks : Speaks (doNextRoundStep engine now) s := by
  refine ifValidator_speaks fun validator =>
    ends_roundStates.mpr (tryCommit_speaks validator fun done => ?_)
  refine ite (fun _ => ?_) fun _ => of_pure _
  exact roundStates_keeps.bind fun _ => ite (fun _ => castNextRoundRCert_spoken) fun _ => of_pure _

private theorem dispatch_speaks : Speaks (dispatch engine now storage s.rs) s := by
  simp only [dispatch, ends_ite]
  refine ⟨fun _ => doNextRoundStep_speaks, fun _ =>
    ⟨fun _ => ?_, fun _ => ⟨fun _ => ?_, fun _ => ?_⟩⟩⟩
  · exact ⟨fun _ => doPendingNext_speaks, fun _ => doPreCommitStep_speaks⟩
  · exact ⟨fun _ => doPendingNext_speaks, fun _ => doPreCommitNilStep_speaks⟩
  refine ⟨fun _ => ⟨fun _ => doPendingPreCommit_speaks, fun _ => doPreVoteStep_speaks⟩, fun _ => ?_⟩
  refine ⟨fun _ => ⟨fun _ => doPendingPreCommit_speaks, fun _ =>
    speaks_of_keeps doPreVoteNilStep_spoken⟩, fun _ => ?_⟩
  refine ⟨fun _ => speaks_of_keeps doPendingPreVoteStep_spoken, fun _ => ⟨fun _ => ?_, fun _ => ?_⟩⟩
  · exact speaks_of_keeps doPendingProposalStep_spoken
  · exact speaks_of_keeps (of_pure ())

theorem first_mem (head : first items = .ok item) : item ∈ items := by
  cases items with
  | nil => simp [first, throw, throwThe, MonadExceptOf.throw] at head
  | cons x rest =>
    obtain rfl : x = item := by simpa [first, pure, Except.pure] using head
    exact List.mem_cons_self ..

private theorem validatorStep_speaks (validator : s.rs.isCurrentValidator = true) :
    Speaks (validatorStep engine now storage s.rs) s := by
  refine ends_ite.mpr ⟨fun _ => doNextRoundStep_speaks, fun free =>
    ends_ite.mpr ⟨fun _ => ?_, fun _ => ?_⟩⟩
  · refine ends_ite.mpr ⟨fun _ => speaks_of_keeps doNextHeightStep_spoken, fun unsent =>
      speaks_of_keeps ?_⟩
    refine bind_lift fun nh head =>
      castNextHeightFromNextHeight_spoken (.follows validator head ?_ ?_)
    · simpa using unsent
    · simpa using free
  · split
    · exact speaks_of_keeps doRoundJump_spoken
    · exact dispatch_speaks

theorem updateLocalStateInternal_speaks :
    Speaks (updateLocalStateInternal engine now storage) s := by
  refine ends_roundStates.mpr ?_
  split
  · exact speaks_of_keeps doHeightJumpStep_spoken
  · split
    · exact speaks_of_keeps (doRoundJump_spoken.bind fun _ => of_pure _)
    · refine ends_ite.mpr ⟨fun _ => ?_, fun mem => ends_bind.mpr ?_⟩
      · exact speaks_of_keeps (doCheckValidValue_spoken.bind fun _ => of_pure _)
      · exact validatorStep_speaks (by simpa using mem)

end Speaks

end AliceNet.Consensus
