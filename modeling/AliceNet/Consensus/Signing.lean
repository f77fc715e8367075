import AliceNet.Consensus.Engine
import AliceNet.Consensus.Record

/-! Which statements the local step of a validator signs. -/

namespace AliceNet.Consensus

open Stateful Keeps

variable {α τ : Type} {engine : Engine α τ} {now : ℕ} {storage : Storage}

/-- The cache of transactions may differ, nothing else. -/
def Node.Cached (n n' : Node α τ) : Prop :=
    ∃ cache, n' = { n with db := { n.db with txCache := cache } }

instance : Std.Refl (Node.Cached (α := α) (τ := τ)) := ⟨fun n => ⟨n.db.txCache, rfl⟩⟩

instance : IsTrans (Node α τ) Node.Cached where
  trans := by
    rintro n _ _ ⟨_, rfl⟩ ⟨cache, rfl⟩
    exact ⟨cache, rfl⟩

theorem addTxs_keeps (height : ℕ) (txs : List τ) :
    Keeps Node.Cached (addTxs engine height txs) := by
  induction txs with
  | nil => exact of_pure ()
  | cons tx rest ih =>
    refine of_lift.bind fun txHash => bind ?_ fun _ => ih
    exact of_modify fun n => ⟨_, rfl⟩

theorem getTxs_keeps : Keeps Node.Cached (getTxs engine height txLst) := by
  refine of_get.bind fun n => of_lift.bind fun cached => of_lift.bind fun found => ?_
  refine (addTxs_keeps height found).bind fun _ => of_lift.bind fun pooled => ?_
  exact of_lift.bind fun result => of_pure _

theorem isValid_keeps :
    Keeps Node.Cached (isValid engine syncToBH chainID stateHash headerRoot txs) := by
  refine of_get.bind fun n => of_lift.bind fun root => ite (fun _ => of_pure _) fun _ => ?_
  split
  · exact ite (fun _ => of_pure _) fun _ => of_throw _
  · exact of_throw _
  · exact (addTxs_keeps _ txs).bind fun _ => of_pure _

theorem getValidValue_keeps : Keeps Node.Cached (getValidValue engine size syncToBH) := by
  refine of_get.bind fun n => of_lift.bind fun proposed => ?_
  refine (addTxs_keeps _ _).bind fun _ => of_lift.bind fun hashes => ?_
  exact of_lift.bind fun root => of_pure _

/-- The same for a session, where values and timers may differ too. -/
def Session.Kept (s t : Session α τ) : Prop :=
  ∃ cache ovs, t = ⟨{ s.node with db := { s.node.db with txCache := cache } },
    { s.rs with ownValidatingState := ovs }⟩

instance : Std.Refl (Session.Kept (α := α) (τ := τ)) :=
    ⟨fun s => ⟨s.node.db.txCache, s.rs.ownValidatingState, rfl⟩⟩

instance : IsTrans (Session α τ) Session.Kept where
  trans := by
    rintro s _ _ ⟨_, _, rfl⟩ ⟨cache, ovs, rfl⟩
    exact ⟨cache, ovs, rfl⟩

theorem onNode_keeps (keeps : Keeps Node.Cached step) : Keeps Session.Kept (onNode step) := by
  refine keeps.focus ?_
  rintro s _ ⟨cache, rfl⟩
  exact ⟨cache, s.rs.ownValidatingState, rfl⟩

theorem onValidatingState_keeps (f : OwnValidatingState → OwnValidatingState) :
    Keeps Session.Kept (onValidatingState f : Step α τ Unit) :=
  of_modify fun s => ⟨s.node.db.txCache, _, rfl⟩

theorem ends_roundStates : Ends (roundStates >>= next) s post fail ↔ Ends (next s.rs) s post fail :=
    Iff.rfl

section Reading

variable {rel : Session α τ → Session α τ → Prop} [Std.Refl rel] [IsTrans (Session α τ) rel]

theorem roundStates_keeps : Keeps rel (roundStates : Step α τ RoundStates) :=
  of_get.bind fun _ => of_pure _

theorem ifValidator_keeps {cast : Step α τ Unit} (keeps : Keeps rel cast) :
    Keeps rel (ifValidator cast) :=
  roundStates_keeps.bind fun _ => ite (fun _ => keeps) fun _ => of_pure _

theorem getProposal_keeps (proposals : List Proposal) :
    Keeps rel (getProposal proposals : Step α τ Proposal) :=
  of_lift.bind fun _ => of_lift.bind fun _ => of_pure _

omit [Std.Refl rel] [IsTrans (Session α τ) rel] in
theorem discard_keeps (keeps : Keeps rel step) : Keeps rel (discard step) := keeps.map

end Reading

theorem updateValidValue_keeps (p : Proposal) : Keeps Session.Kept (updateValidValue engine p) := by
  refine roundStates_keeps.bind fun rs => bind (onNode_keeps ?_) fun found => ?_
  · refine getTxs_keeps.tryCatch fun e => ite (fun _ => of_pure _) fun _ => of_throw _
  · refine (onNode_keeps isValid_keeps).bind fun ok => ?_
    exact ite (fun _ => of_throw _ |>.bind fun _ => onValidatingState_keeps _)
      fun _ => onValidatingState_keeps _

def Node.Silent (n n' : Node α τ) : Prop := n'.signed = n.signed

instance : Std.Refl (Node.Silent (α := α) (τ := τ)) := ⟨fun _ => rfl⟩

instance : IsTrans (Node α τ) Node.Silent := ⟨fun _ _ _ first second => Eq.trans second first⟩

theorem Node.Cached.silent {n n' : Node α τ} (cached : n.Cached n') : n.Silent n' := by
  obtain ⟨_, rfl⟩ := cached
  rfl

theorem applyState_silent : Keeps Node.Silent (applyState engine syncToBH chainID txHashes) := by
  refine (getTxs_keeps.mono Node.Cached.silent).bind fun found => ?_
  have rest : Keeps Node.Silent (do
      addTxs engine (syncToBH.bClaims.height + 1) found.1
      discard (focus (·.app) (fun app n => { n with app := app })
        (engine.app.applyState chainID (syncToBH.bClaims.height + 1) found.1)) :
            NodeStep α τ Unit) := by
    refine ((addTxs_keeps _ _).mono Node.Cached.silent).bind fun _ => map ?_
    exact (total _).focus fun _ _ _ => rfl
  exact ite (fun _ => (of_throw _).bind fun _ => rest) fun _ => rest

theorem setCommittedBlockHeader_silent (v : BlockHeader) :
    Keeps Node.Silent (setCommittedBlockHeader engine v) := by
  refine of_get.bind fun n => of_lift.bind fun root => bind ?_ fun _ => ite ?_ ?_
  · exact of_modify fun _ => rfl
  · exact fun _ => of_modify fun _ => rfl
  · exact fun _ => of_pure _

def Session.Spoken (due pledge : PClaims → Prop) (rounds : Prop) (s t : Session α τ) : Prop :=
  ∃ statements, t.node.signed = s.node.signed ++ statements ∧
    (∀ claims, .nextHeight claims ∈ statements → due claims) ∧
    (∀ claims, .preCommit claims ∈ statements → pledge claims) ∧
    ∀ claims, .nextRound claims ∈ statements → rounds

section Spoken

variable {due pledge : PClaims → Prop} {rounds : Prop}

theorem Session.Spoken.of_same {s t : Session α τ} (same : t.node.signed = s.node.signed) :
    s.Spoken due pledge rounds t :=
  ⟨[], by simpa using same, by simp, by simp, by simp⟩

instance : Std.Refl (Session.Spoken (α := α) (τ := τ) due pledge rounds) := ⟨fun _ => .of_same rfl⟩

instance : IsTrans (Session α τ) (Session.Spoken due pledge rounds) where
  trans := by
    rintro s t u ⟨first, signed, dueFirst, pledgeFirst, roundFirst⟩ ⟨second, signed', dueSecond,
      pledgeSecond, roundSecond⟩
    refine ⟨first ++ second, by rw [signed', signed, List.append_assoc], fun claims mem =>
      ?_, fun claims mem => ?_, fun claims mem => ?_⟩
    · exact (List.mem_append.mp mem).elim (dueFirst claims) (dueSecond claims)
    · exact (List.mem_append.mp mem).elim (pledgeFirst claims) (pledgeSecond claims)
    · exact (List.mem_append.mp mem).elim (roundFirst claims) (roundSecond claims)

theorem Session.Kept.spoken {s t : Session α τ} (kept : s.Kept t) :
    s.Spoken due pledge rounds t := by
  obtain ⟨_, _, rfl⟩ := kept
  exact .of_same rfl

theorem bnSign_keeps : Keeps Session.Kept (bnSign engine statement) := by
  refine of_get.bind fun s => ?_
  split
  · exact of_lift
  · exact of_throw _

theorem bnAggregate_keeps : Keeps Session.Kept (bnAggregate engine sigs shares) := by
  refine of_get.bind fun s => ?_
  split
  · exact of_lift
  · exact of_throw _

theorem sign_spoken (height : ∀ claims, statement = .nextHeight claims → due claims)
    (commit : ∀ claims, statement = .preCommit claims → pledge claims)
    (round : ∀ claims, statement = .nextRound claims → rounds) :
    Keeps (Session.Spoken due pledge rounds) (sign engine statement) := by
  refine of_lift.bind fun signature => bind (of_modify fun s => ?_) fun _ => of_pure _
  refine ⟨[statement], rfl, fun claims mem => ?_, fun claims mem => ?_, fun claims mem => ?_⟩
  · exact height claims (List.mem_singleton.mp mem).symm
  · exact commit claims (List.mem_singleton.mp mem).symm
  · exact round claims (List.mem_singleton.mp mem).symm

theorem onOwn_spoken {step : EStateM Fault RoundState β} :
    Keeps (Session.Spoken due pledge rounds) (onOwn step : Step α τ β) :=
  (total step).focus fun _ _ _ => .of_same rfl

theorem setOwn_spoken : Keeps (Session.Spoken due pledge rounds) (setOwn engine v) :=
  onOwn_spoken.bind fun _ => ite (fun _ => of_throw _) fun _ => of_pure _

theorem onValidatingState_spoken :
    Keeps (Session.Spoken due pledge rounds) (onValidatingState f : Step α τ Unit) :=
  (onValidatingState_keeps f).mono Session.Kept.spoken

theorem setBroadcast_spoken :
    Keeps (Session.Spoken due pledge rounds) (setBroadcast v : Step α τ Unit) :=
  of_modify fun _ => .of_same rfl

theorem publish_spoken (made : Keeps (Session.Spoken due pledge rounds) make)
    (filed : ∀ v, Keeps (Session.Spoken due pledge rounds) (file v)) :
    Keeps (Session.Spoken due pledge rounds) (publish engine make message file) :=
  ifValidator_keeps <| made.bind fun v => (discard_keeps of_lift).bind fun _ =>
    setBroadcast_spoken.bind fun _ => filed v

theorem NextHeight.sign_spoken {nh : NextHeight} (allowed : due nh.nhClaims.proposal.pClaims) :
    Keeps (Session.Spoken due pledge rounds) (nh.sign engine) := by
  refine bind (Consensus.sign_spoken ?_ nofun nofun) fun _ => of_lift.bind fun _ => ?_
  · rintro claims ⟨⟩
    exact allowed
  · exact (bnSign_keeps.mono Session.Kept.spoken).bind fun _ => of_pure _

theorem setMostRecentNextHeight_spoken (nh : NextHeight) :
    Keeps (Session.Spoken due pledge rounds) (setMostRecentNextHeight engine nh) :=
  setOwn_spoken.bind fun _ => onValidatingState_spoken

theorem castNextHeightFromNextHeight_spoken {nh : NextHeight}
    (allowed : due nh.nhClaims.proposal.pClaims) :
    Keeps (Session.Spoken due pledge rounds) (castNextHeightFromNextHeight engine nh) :=
  publish_spoken (of_lift.bind fun _ => NextHeight.sign_spoken allowed)
    setMostRecentNextHeight_spoken

end Spoken

namespace Session

/-- A `NextHeight` is signed on the first of a validator, or on enough precommits of the round. -/
inductive Due (rs : RoundStates) : PClaims → Prop
  | follows (validator : rs.isCurrentValidator = true) (head : first rs.currentNextHeights = .ok nh)
      (unsent : rs.ownRoundState.nhCurrent rs.rCert = false)
      (free : ¬(rs.ownRoundState.nrCurrent rs.rCert = true ∧ rs.rCert.rClaims.round =
        DEADBLOCKROUNDNR)) :
      Due rs nh.nhClaims.proposal.pClaims
  | commits (validator : rs.isCurrentValidator = true)
      (enough : rs.getCurrentThreshold ≤ rs.currentPreCommits.length)
      (head : first rs.currentPreCommits = .ok pc) : Due rs pc.proposal.pClaims

/-- Enough prevotes of the node's round are there. -/
inductive Pledge (rs : RoundStates) : PClaims → Prop
  | counts (validator : rs.isCurrentValidator = true) (enough : rs.getCurrentThreshold ≤
      rs.currentPreVotes.length)
      (head : first rs.currentPreVotes = .ok pv) : Pledge rs pv.proposal.pClaims

end Session

end AliceNet.Consensus
