import AliceNet.Consensus.Transactions

/-! The admin handlers, which change the validator set when Ethereum announces a new one. -/

namespace AliceNet.Consensus

open Stateful (lift focus)

def OwnValidatingState.setRoundStarted (now : ℕ) (b : OwnValidatingState) : OwnValidatingState :=
  { b with roundStarted := now / 10 ^ 9, preVoteStepStarted := 0, preCommitStepStarted := 0 }

section Admin

variable {α τ : Type} (engine : Engine α τ)

def onDB (f : Database τ → Database τ) : NodeStep α τ Unit := modify fun n =>
    { n with db := f n.db }

def currentRoundStateOrNil (vAddr : Address) : NodeStep α τ (Option RoundState) := do
  lift (Database.foundOrNil ((← get).db.currentRoundState vAddr) RoundState.unmarshalCapn)

def startCert (rs : Option RoundState) (rcert : RCert) : RCert :=
  match rs with
  | some rs => if rcert.rClaims.height < rs.rCert.rClaims.height then rs.rCert else rcert
  | none => rcert

def initValidatorsRoundState (groupKey : GroupKey) (rcert : RCert) : List Validator →
    NodeStep α τ Bool
  | [] => pure false
  | val :: rest => do
    let rs ← currentRoundStateOrNil val.vAddr
    onDB (·.setCurrentRoundState val.vAddr (RoundState.initial groupKey (startCert rs rcert)))
    let isValidator ← initValidatorsRoundState groupKey rcert rest
    pure (val.vAddr == engine.ethAcct || isValidator)

def initOwnRoundState (v : ValidatorSet) (rcert : RCert) : NodeStep α τ Unit := do
  match ← currentRoundStateOrNil engine.ethAcct with
  | some rs =>
    if rs.groupKey ≠ v.groupKey ∧ rcert.rClaims.height ≤ v.notBefore then
      onDB (·.setCurrentRoundState engine.ethAcct (RoundState.initial v.groupKey rcert))
    else onDB (·.setCurrentRoundState engine.ethAcct rs)
  | none => onDB (·.setCurrentRoundState engine.ethAcct (RoundState.initial v.groupKey rcert))

def initRoundStates (v : ValidatorSet) (rcert : RCert) : NodeStep α τ Unit := do
  let isValidator ← initValidatorsRoundState engine v.groupKey rcert v.validators
  if !isValidator then initOwnRoundState engine v rcert

def addValidatorSetEdgecase (v : ValidatorSet) : NodeStep α τ Unit := do
  match ← lift ((← get).db.getCommittedBlockHeader (v.notBefore - 1)) with
  | none => onDB (·.setValidatorSetPostApplication v v.notBefore)
  | some bh => do
    let rcert ← lift (bh.getRCert engine.crypto)
    initRoundStates engine v rcert
    onDB (·.setValidatorSet v)

/-- The first block and the state that goes with it. -/
def initDB (now : ℕ) (v : ValidatorSet) : NodeStep α τ BlockHeader := do
  let stateRoot ← focus (·.app) (fun app n => { n with app := app })
    (engine.app.applyState engine.chainID 1 [])
  let txRoot ← lift (engine.crypto.makeTxRoot [])
  let prevBlock ← lift (engine.crypto.makeTxRoot (v.addresses.map engine.crypto.hashAddress))
  let bh : BlockHeader := ⟨⟨engine.chainID, 1, 0, prevBlock, txRoot, stateRoot, 0⟩, 0, []⟩
  onDB (·.setSnapshotBlockHeader bh)
  setCommittedBlockHeader engine bh
  onDB fun db => { db with
    ownState := some ⟨engine.ethAcct, 0, bh, bh, bh, bh⟩
    ownValidatingState := some (OwnValidatingState.setRoundStarted now ⟨0, 0, 0, none, none⟩) }
  pure bh

def setSafeToProceed (height : ℕ) : NodeStep α τ Unit := do
  if height % EpochLength ≠ 1 then throw (.other "The height must be mod 1 epoch length")
  onDB fun db => { db with safeToProceed := Function.update db.safeToProceed height true }

def epochBoundaryValidator (now : ℕ) (v : ValidatorSet) : NodeStep α τ Unit := do
  let snapshot ← lift ((← get).db.getSnapshotByHeight v.notBefore)
  let bh ← match snapshot with
    | some bh => if v.notBefore = 0 then initDB engine now v else pure bh
    | none => initDB engine now v
  let rcert ← lift (bh.getRCert engine.crypto)
  initRoundStates engine v rcert
  let v := { v with notBefore := if v.notBefore = 0 then 1 else rcert.rClaims.height }
  onDB (·.setValidatorSet v)
  setSafeToProceed v.notBefore

/-- Whether the set is already in force with its block committed. -/
def knownSet (db : Database τ) (v : ValidatorSet) : Except Fault Bool := do
  let height := if 1 ≤ v.notBefore then v.notBefore else 1
  let bh ← db.getCommittedBlockHeader (if v.notBefore = 0 then 1 else height - 1)
  match bh, latest db.validatorSet height with
  | some _, some vSet => pure (v.groupKey == vSet.groupKey)
  | _, _ => pure false

def addValidatorSet (now : ℕ) (v : ValidatorSet) : NodeStep α τ Unit := do
  if ← lift (knownSet (← get).db v) then return
  if v.notBefore % EpochLength = 0 then epochBoundaryValidator engine now v
  else if v.groupKey = 0 then onDB (·.setValidatorSet v)
  else addValidatorSetEdgecase engine v

end Admin

end AliceNet.Consensus
