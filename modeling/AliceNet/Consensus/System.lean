import AliceNet.Consensus.PreValidation
import AliceNet.Consensus.Steps

/-! Runs of a node. Every call is a transaction, but what the node has signed stays signed. -/

namespace AliceNet.Consensus

open Stateful

variable {α τ : Type}

def Node.transact {β : Type} (n : Node α τ) (step : NodeStep α τ β) : Node α τ :=
  match step n with
  | .ok _ n' => n'
  | .error _ n' => { n' with db := n.db, app := n.app }

inductive Event (α τ : Type)
  /-- `Handlers.Store` of an object that has passed `PreValidate`. -/
  | store (v : Validated)
  | update (now : ℕ) (loadStorage : ℕ → Except Fault Storage)
  | addValidatorSet (now : ℕ) (v : ValidatorSet)
  | setSafeToProceed (height : ℕ)
  /-- The pending pool and the download cache change. -/
  | outside (app : α) (txc : Hash → Option (ℕ × τ))
  | restart

def Node.after (engine : Engine α τ) (n : Node α τ) : Event α τ → Node α τ
  | .store v =>
    match n.db.store engine.crypto v with
    | .ok db => { n with db := db }
    | .error _ => n
  | .update now loadStorage => n.transact (updateLocalState engine now loadStorage)
  | .addValidatorSet now v => n.transact (addValidatorSet engine now v)
  | .setSafeToProceed height => n.transact (setSafeToProceed height)
  | .outside app txc => { n with app := app, txc := txc }
  | .restart => { n with bnSigner := none, txc := fun _ => none }

/-- What is stored was pre-validated, at this or at an earlier moment. -/
def Event.Possible (engine : Engine α τ) : Event α τ → Prop
  | .store v => ∃ db : Database τ, db.preValidate engine.crypto v.object = .ok v.origin
  | _ => True

/-- No record holds a vote, and nothing is signed. -/
structure Node.Fresh (n : Node α τ) : Prop where
  records : ∀ vAddr, n.db.currentRoundState vAddr = none
  signed : n.signed = []

def Moves (engine : Engine α τ) (allowed : Node α τ → Event α τ → Prop) (n n' : Node α τ) : Prop :=
  ∃ event : Event α τ, event.Possible engine ∧ allowed n event ∧ n' = n.after engine event

inductive Run (engine : Engine α τ) (initial : Node α τ → Prop) (allowed : Node α τ → Event α τ →
    Prop) : Node α τ → Prop
  | start {n : Node α τ} (begins : initial n) : Run engine initial allowed n
  | step {n : Node α τ} {event : Event α τ} (run : Run engine initial allowed n)
      (possible : event.Possible engine)
      (meets : allowed n event) : Run engine initial allowed (n.after engine event)

section Silent

variable {engine : Engine α τ}

theorem onDB_silent : Keeps Node.Silent (onDB f : NodeStep α τ Unit) :=
  Keeps.of_modify fun _ => rfl

theorem currentRoundStateOrNil_silent :
    Keeps Node.Silent (currentRoundStateOrNil vAddr : NodeStep α τ (Option RoundState)) :=
  Keeps.of_get.bind fun _ => Keeps.of_lift

private theorem initValidatorsRoundState_silent :
    Keeps Node.Silent (initValidatorsRoundState engine groupKey rcert validators) := by
  induction validators with
  | nil => exact Keeps.of_pure _
  | cons val rest ih =>
    refine currentRoundStateOrNil_silent.bind fun rs => onDB_silent.bind fun _ => ?_
    exact ih.bind fun _ => Keeps.of_pure _

private theorem initOwnRoundState_silent (v : ValidatorSet) (rcert : RCert) :
    Keeps Node.Silent (initOwnRoundState engine v rcert) := by
  refine currentRoundStateOrNil_silent.bind fun rs => ?_
  cases rs with
  | none => exact onDB_silent
  | some rs => exact Keeps.ite (fun _ => onDB_silent) fun _ => onDB_silent

theorem initRoundStates_silent : Keeps Node.Silent (initRoundStates engine v rcert) :=
  initValidatorsRoundState_silent.bind fun _ =>
    Keeps.ite (fun _ => initOwnRoundState_silent v rcert) fun _ => Keeps.of_pure _

theorem addValidatorSetEdgecase_silent : Keeps Node.Silent (addValidatorSetEdgecase engine v) := by
  refine Keeps.of_get.bind fun n => Keeps.of_lift.bind fun bh => ?_
  cases bh with
  | none => exact onDB_silent
  | some bh => exact Keeps.of_lift.bind fun _ => initRoundStates_silent.bind fun _ => onDB_silent

/-- Only what is in memory changes, and nothing is signed. -/
structure Node.Idle (n n' : Node α τ) : Prop where
  db : n'.db = n.db
  signed : n'.signed = n.signed

instance : Std.Refl (Node.Idle (α := α) (τ := τ)) := ⟨fun _ => ⟨rfl, rfl⟩⟩

instance : IsTrans (Node α τ) Node.Idle :=
  ⟨fun _ _ _ first second => ⟨second.db.trans first.db, second.signed.trans first.signed⟩⟩

private theorem loadSigners_idle (vs : ValidatorSet) (ownState : OwnState)
    (validators : List Validator) :
    Keeps Node.Idle (loadSigners engine vs ownState validators) := by
  induction validators with
  | nil => exact Keeps.of_pure _
  | cons v rest ih =>
    refine Keeps.of_get.bind fun n => Keeps.ite (fun _ => Keeps.ite (fun _ => ?_) fun _ =>
      Keeps.of_pure _) fun _ => ih
    refine Keeps.bind (Keeps.of_modify fun _ => ⟨rfl, rfl⟩) fun _ => ih.bind fun found => ?_
    cases found <;> exact Keeps.of_pure _

private theorem applyWaitingSet_ends (vs : ValidatorSet) (n : Node α τ) :
    Ends (applyWaitingSet engine vs) n (fun applied n' => n'.signed = n.signed ∧
      (applied = false → n' = n))
      fun _ n' => n'.signed = n.signed := by
  simp only [applyWaitingSet, ends_bind, ends_get]
  split
  · refine ends_ite.mpr ⟨fun _ => ends_bind.mpr ?_, fun _ => ⟨rfl, fun _ => rfl⟩⟩
    refine (addValidatorSetEdgecase_silent n).mono (fun _ _ silent =>
      ⟨silent, ?_⟩) fun _ _ silent => silent
    exact fun unapplied => absurd unapplied.symm Bool.false_ne_true
  · exact ⟨rfl, fun _ => rfl⟩

private theorem loadedSigners_ends {n n₁ : Node α τ} (silent : n₁.signed = n.signed)
    (same : applied = false → n₁ = n) (now : ℕ)
    (set : ValidatorSet) (ownState : OwnState) (ovs : OwnValidatingState) :
    Ends (do
      match ← loadSigners engine set { ownState with vAddr := engine.ethAcct } set.validators with
      | none => return false
      | some unchanged =>
        if !applied && unchanged &&
            ownState == { { ownState with vAddr := engine.ethAcct } with
              groupKey := set.groupKey } then return true
        else
          onDB fun db => { db with
            ownValidatingState := some (OwnValidatingState.setRoundStarted now ovs)
            ownState := some { { ownState with vAddr := engine.ethAcct } with
              groupKey := set.groupKey } }
          return false) n₁
      (fun ready n' => n'.signed = n.signed ∧ (ready = true → n'.db = n.db)) fun _ n' =>
          n'.signed = n.signed := by
  refine ends_bind.mpr ((loadSigners_idle set _ _ n₁).mono ?_ fun _ _ idle =>
    idle.signed.trans silent)
  intro found n₂ idle
  cases found with
  | none => exact ⟨idle.signed.trans silent, fun unready => absurd unready Bool.false_ne_true⟩
  | some unchanged =>
    refine ends_ite.mpr ⟨fun ready => ⟨idle.signed.trans silent, fun _ => ?_⟩, fun _ =>
      ⟨idle.signed.trans silent, ?_⟩⟩
    · simp only [Bool.and_eq_true, Bool.not_eq_true'] at ready
      rw [idle.db, same ready.1.1]
    · exact fun unready => absurd unready Bool.false_ne_true

private theorem updateLoadedObjects_ends (now : ℕ) (vs : ValidatorSet) (ownState : OwnState)
    (ovs : OwnValidatingState) (n : Node α τ) :
    Ends (updateLoadedObjects engine now vs ownState ovs) n
      (fun ready n' => n'.signed = n.signed ∧ (ready = true → n'.db = n.db)) fun _ n' =>
        n'.signed = n.signed := by
  refine ends_bind.mpr ((applyWaitingSet_ends vs n).mono ?_ fun _ _ silent => silent)
  rintro applied n₁ ⟨silent, same⟩
  refine ends_ite.mpr ⟨fun _ => ends_bind.mpr (ends_get.mpr (ends_bind.mpr (ends_lift.mpr ?_))),
    fun _ => ?_⟩
  · exact ⟨fun set _ => loadedSigners_ends silent same now set ownState ovs, fun _ _ => silent⟩
  · exact loadedSigners_ends silent same now vs ownState ovs

def Node.Utters (n n' : Node α τ) : Prop :=
  n.Silent n' ∨ ∃ (rs : RoundStates) (s t : Session α τ), n.db.loadLocalState = .ok rs ∧ s.rs = rs ∧
    s.node.signed = n.signed ∧ s.Uttered t ∧ n'.signed = t.node.signed

private theorem updateRoundStates_utters (now : ℕ) (storage : Storage) (n : Node α τ) :
    Ends (updateRoundStates engine now storage) n (fun _ n' => n.Utters n') fun _ n' =>
      n.Utters n' := by
  simp only [updateRoundStates, ends_bind, ends_get, ends_lift, ends_ite]
  refine ⟨fun rs loaded => ⟨fun _ => .inl rfl, fun _ => ?_⟩, fun _ _ => .inl rfl⟩
  have speaks : Speaks (updateLocalStateInternal engine now storage) ⟨n, rs⟩ :=
    updateLocalStateInternal_speaks
  have uttered : ∀ (t : Session α τ) (n' : Node α τ), Session.Uttered ⟨n, rs⟩ t →
      n'.signed = t.node.signed →
      n.Utters n' := fun t n' uttered same => .inr ⟨rs, ⟨n, rs⟩, t, loaded, rfl, rfl, uttered, same⟩
  cases outcome : updateLocalStateInternal engine now storage ⟨n, rs⟩ with
  | ok isSync t =>
    have said := speaks.of_ok outcome
    refine ends_bind.mpr
      (ends_bind.mpr (ends_lift.mpr ⟨fun db _ => ?_, fun _ _ => uttered t _ said rfl⟩))
    exact uttered t _ said rfl
  | error e t => exact uttered t _ (speaks.of_error outcome) rfl

theorem Database.loadLocalState_cached (db : Database τ) (cache : ℕ → Hash → Option τ) :
    ({ db with txCache := cache } : Database τ).loadLocalState = db.loadLocalState := by
  have peers : ∀ rcert groupKey validators map,
      ({ db with txCache := cache } : Database τ).loadPeers rcert groupKey
      validators map = db.loadPeers rcert groupKey validators map := by
    intro rcert groupKey validators
    induction validators with
    | nil => intro map; rfl
    | cons vAddr rest ih =>
      intro map
      simp only [loadPeers, ih]
      rfl
  simp only [loadLocalState, loadState, peers]
  rfl

theorem Node.Utters.of_silent {n n₁ n' : Node α τ}
    (same : n₁.db.loadLocalState = n.db.loadLocalState) (silent : n.Silent n₁)
    (utters : n₁.Utters n') : n.Utters n' := by
  rcases utters with quiet | ⟨rs, s, t, loaded, states, signed, uttered, said⟩
  · exact .inl (Eq.trans quiet silent)
  · exact .inr ⟨rs, s, t, same.symm.trans loaded, states, signed.trans silent, uttered, said⟩

theorem Node.Utters.silent {n n₁ n' : Node α τ} (utters : n.Utters n₁) (silent : n₁.Silent n') :
    n.Utters n' := by
  rcases utters with quiet | ⟨rs, s, t, loaded, states, signed, uttered, said⟩
  · exact .inl (Eq.trans silent quiet)
  · exact .inr ⟨rs, s, t, loaded, states, signed, uttered, Eq.trans silent said⟩

private theorem updateLocalState_utters (now : ℕ) (loadStorage : ℕ → Except Fault Storage)
    (n : Node α τ) :
    Ends (updateLocalState engine now loadStorage) n (fun _ n' => n.Utters n') fun _ n' =>
      n.Utters n' := by
  simp only [updateLocalState, ends_bind, ends_get, ends_lift, flushCacheToDisk, ends_modify]
  refine ⟨fun ownState _ => ⟨fun ovs _ => ⟨fun storage _ => ⟨fun vs _ => ?_, fun _ _ => .inl rfl⟩,
    fun _ _ => .inl rfl⟩, fun _ _ => .inl rfl⟩, fun _ _ => .inl rfl⟩
  refine (updateLoadedObjects_ends now vs ownState ovs _).mono ?_ fun _ _ silent => .inl silent
  rintro ready n₁ ⟨silent, same⟩
  refine ends_ite.mpr ⟨fun yes => ?_, fun _ => .inl silent⟩
  have loads : n₁.db.loadLocalState = n.db.loadLocalState := by
    rw [same yes]
    exact Database.loadLocalState_cached n.db _
  -- the end of the call cleans the download cache
  have cleans : ∀ (isSync : Bool) (n₂ : Node α τ), n₁.Utters n₂ →
      Ends (do cleanCache ownState.syncToBH.bClaims.height; return isSync) n₂ (fun _ n' =>
        n.Utters n') fun _ n' => n.Utters n' := by
    intro isSync n₂ utters
    refine .of_silent loads silent (utters.silent ?_)
    split <;> rfl
  refine ends_ite.mpr ⟨fun _ => ?_, fun _ => ends_bind.mpr ?_⟩
  · refine ends_bind.mpr
      (ends_get.mpr (ends_bind.mpr (ends_lift.mpr ⟨fun rs _ => ?_, fun _ _ => .inl silent⟩)))
    exact cleans _ n₁ (.inl rfl)
  · refine (updateRoundStates_utters now storage n₁).mono cleans fun _ n' utters =>
      .of_silent loads silent utters

private theorem initDB_silent : Keeps Node.Silent (initDB engine now v) :=
  Keeps.bind (Keeps.focus (Keeps.total _) fun _ _ _ => rfl) fun _ => Keeps.of_lift.bind fun _ =>
      Keeps.of_lift.bind fun _ =>
    onDB_silent.bind fun _ => (setCommittedBlockHeader_silent _).bind fun _ =>
      onDB_silent.bind fun _ => Keeps.of_pure _

theorem setSafeToProceed_silent : Keeps Node.Silent (setSafeToProceed height : NodeStep α τ Unit) :=
  Keeps.ite (fun _ => (Keeps.of_throw _).bind fun _ => onDB_silent) fun _ => onDB_silent

private theorem addValidatorSet_silent : Keeps Node.Silent (addValidatorSet engine now v) := by
  refine Keeps.of_get.bind fun _ => Keeps.of_lift.bind fun _ =>
    Keeps.ite (fun _ => Keeps.of_pure _) fun _ => ?_
  refine Keeps.ite (fun _ => ?_) fun _ => Keeps.ite (fun _ => onDB_silent) fun _ =>
    addValidatorSetEdgecase_silent
  refine Keeps.of_get.bind fun _ => Keeps.of_lift.bind fun snapshot => ?_
  cases snapshot
  case' none => refine initDB_silent.bind fun _ => ?_
  case' some => refine Keeps.ite (fun _ => initDB_silent.bind fun _ => ?_) fun _ =>
    (Keeps.of_pure _).bind fun _ => ?_
  all_goals
    exact Keeps.of_lift.bind fun _ => initRoundStates_silent.bind fun _ => onDB_silent.bind fun _ =>
      setSafeToProceed_silent

theorem Node.transact_utters {step : NodeStep α τ β} {n : Node α τ}
    (ends : Ends step n (fun _ n' => n.Utters n') fun _ n' => n.Utters n') :
    n.Utters (n.transact step) := by
  unfold Node.transact
  cases outcome : step n with
  | ok _ n' => exact ends.of_ok outcome
  | error _ n' => exact (ends.of_error outcome).silent rfl

theorem Node.transact_silent {step : NodeStep α τ β} (keeps : Keeps Node.Silent step)
    (n : Node α τ) : n.Silent (n.transact step) := by
  unfold Node.transact
  cases outcome : step n with
  | ok _ n' => exact (keeps n).of_ok outcome
  | error _ n' => exact show n'.signed = n.signed from (keeps n).of_error outcome

theorem Node.after_silent (engine : Engine α τ) (n : Node α τ) (event : Event α τ)
    (other : ∀ now loadStorage, event ≠ .update now loadStorage) :
    n.Silent (n.after engine event) := by
  cases event with
  | store v =>
    simp only [Node.after]
    split <;> rfl
  | update now loadStorage => exact absurd rfl (other now loadStorage)
  | addValidatorSet => exact transact_silent addValidatorSet_silent n
  | setSafeToProceed => exact transact_silent setSafeToProceed_silent n
  | outside | restart => rfl

theorem Node.update_utters (engine : Engine α τ) (n : Node α τ) (now : ℕ)
    (loadStorage : ℕ → Except Fault Storage) :
    n.Utters (n.after engine (.update now loadStorage)) :=
  transact_utters (updateLocalState_utters now loadStorage n)

end Silent

def sampleApplication : Application Unit Unit where
  txHash _ := .ok 0
  getValidProposal _ _ _ _ := .ok ([], some 0)
  isValid _ _ _ _ _ := .ok true
  applyState _ _ _ := pure 0
  getPendingTx _ _ _ := .error .keyNotFound

def sampleEngine : Engine Unit Unit where
  crypto := { sampleCrypto with hashBClaims := BClaims.stateRoot }
  app := sampleApplication
  ethAcct := 1
  chainID := 1
  privK _ := true
  headerTrie _ _ := .ok 0

def freshNode : Node Unit Unit where
  db := ⟨none, none, fun _ => none, fun _ => none, fun _ => none, fun _ => none, fun _ =>
    none, fun _ => none, none, fun _ => false, fun _ _ => none, []⟩
  app := ()
  bnSigner := none
  txc _ := none
  signed := []

private theorem freshNode_fresh : freshNode.Fresh := ⟨fun _ => rfl, rfl⟩

def sampleUpdate (now : ℕ) : Event Unit Unit := .update now fun _ => .ok ⟨10, 10, 10, 10, 1000⟩

def sampleSet : ValidatorSet := ⟨[1, 2, 3, 4].map fun vAddr => ⟨vAddr, vAddr⟩, 5, 0⟩

def sampleBlock (stateRoot : Hash) : Proposal :=
    ⟨⟨⟨1, 2, 0, 0, 0, stateRoot, 0⟩, sampleRCert 2 1⟩, 3, []⟩

def sampleNode (events : List (Event Unit Unit)) : Node Unit Unit :=
  events.foldl (Node.after sampleEngine) freshNode

theorem sampleNode_run (possible : ∀ event ∈ events, event.Possible sampleEngine) :
    Run sampleEngine Node.Fresh (fun _ _ => True) (sampleNode events) := by
  induction events using List.reverseRecOn with
  | nil => exact .start freshNode_fresh
  | append_singleton events event ih =>
    obtain ⟨earlier, last⟩ := List.forall_mem_append.mp possible
    rw [sampleNode, List.foldl_append]
    exact (ih earlier).step (last event (List.mem_singleton_self _)) trivial

end AliceNet.Consensus
