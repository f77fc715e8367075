import AliceNet.Consensus.Cast

/-!
The steps of the engine and their order in `UpdateLocalState`.
-/

namespace AliceNet.Consensus

open Stateful (lift focus tolerate)

def expired (started timeout now : ℕ) : Bool := started * 10 ^ 9 + timeout < now

namespace RoundStates

variable (r : RoundStates)

def timer (f : OwnValidatingState → ℕ) : ℕ := (r.ownValidatingState.map f).getD 0

def ptoExpired (timeout now : ℕ) : Bool := expired (r.timer (·.roundStarted)) timeout now
def pvtoExpired (timeout now : ℕ) : Bool := expired (r.timer (·.preVoteStepStarted)) timeout now
def pctoExpired (timeout now : ℕ) : Bool := expired (r.timer (·.preCommitStepStarted)) timeout now
def dbrnrExpired (timeout now : ℕ) : Bool := expired (r.timer (·.preCommitStepStarted)) timeout now

end RoundStates

section Steps

variable {α τ : Type} (engine : Engine α τ) (now : ℕ) (storage : Storage)

def doPendingProposalStep : Step α τ Unit := ifValidator do
  let rs ← roundStates
  if rs.rCert.rClaims.round = DEADBLOCKROUND then return
  if rs.lockedValueCurrent then
    castProposalFromValue engine (← lift (first rs.lockedValue.toList))
  else if rs.validValueCurrent then
    castProposalFromValue engine (← lift (first rs.validValue.toList))
  else castNewProposalValue engine storage

/-- The empty block on top of the block that the node is at. -/
def emptyBClaims (txRoot headerRoot : Hash) (syncToBH : BlockHeader) (rcert : RCert) : BClaims where
  chainID := rcert.rClaims.chainID
  height := rcert.rClaims.height
  txCount := 0
  prevBlock := rcert.rClaims.prevBlock
  txRoot := txRoot
  stateRoot := syncToBH.bClaims.stateRoot
  headerRoot := headerRoot

/-- In the dead block round every validator votes for the empty block. -/
def deadBlockPreVote (rs : RoundStates) : Step α τ Unit := do
  dropValues
  let txRoot ← lift (engine.crypto.makeTxRoot [])
  let headerRoot ← lift ((← get).node.db.getHeaderTrieRoot rs.ownState.syncToBH.bClaims.height)
  let p ← Proposal.sign engine ⟨⟨emptyBClaims txRoot headerRoot rs.ownState.syncToBH rs.rCert,
    rs.rCert⟩, 0, []⟩
  castPreVote engine now p

def proposalValid (rs : RoundStates) (p : Proposal) : Step α τ Bool :=
  onNode (tryCatch (do
      let (txs, _) ← getTxs engine p.pClaims.bClaims.height p.txHshLst
      return some txs) (fun _ => return none) >>= fun
    | some txs => tryCatch (isValid engine rs.ownState.syncToBH p.pClaims.bClaims.chainID
        p.pClaims.bClaims.stateRoot p.pClaims.bClaims.headerRoot txs) fun e =>
          if e.tolerable then return false else throw e
    | none => return false)

def doPendingPreVoteStep : Step α τ Unit := ifValidator do
  let rs ← roundStates
  if rs.rCert.rClaims.round = DEADBLOCKROUND then deadBlockPreVote engine now rs
  else
    match rs.getCurrentProposal with
    | some p =>
      if rs.lockedValueCurrent then
        castPreVoteWithLock engine now (← lift (first rs.lockedValue.toList)) p
      else if rs.validValueCurrent then
        castPreVoteWithLock engine now (← lift (first rs.validValue.toList)) p
      else if ← proposalValid engine rs p then castPreVote engine now p
      else castPreVoteNil engine now
    | none => castPreVoteNil engine now

def doPreVoteStep : Step α τ Unit := ifValidator do
  let rs ← roundStates
  let pvl := rs.currentPreVotes
  if rs.getCurrentThreshold ≤ pvl.length then castPreCommit engine now pvl

def getProposal (proposals : List Proposal) : Step α τ Proposal := do
  let p ← lift (first proposals)
  lift p.unmarshalCapn
  return p

def doPreVoteNilStep : Step α τ Unit := ifValidator do
  let rs ← roundStates
  let pvl := rs.currentPreVotes
  if rs.getCurrentThreshold ≤ pvl.length then
    updateValidValue engine (← getProposal (pvl.map (·.proposal)))
  if rs.getCurrentThreshold ≤ rs.currentPreVoteNils then castPreCommitNil engine now

def doPendingPreCommit : Step α τ Unit := ifValidator do
  let rs ← roundStates
  let pvl := rs.currentPreVotes
  if rs.getCurrentThreshold ≤ pvl.length ∧ rs.ownRoundState.pvCurrent rs.rCert = true then
    castPreCommit engine now pvl
  else
    if rs.getCurrentThreshold ≤ pvl.length then
      let p ← getProposal (pvl.map (·.proposal))
      discard (tolerate Fault.tolerable (updateValidValue engine p))
    if rs.rCert.rClaims.round ≠ DEADBLOCKROUND then castPreCommitNil engine now

/-- Takes the value of the precommits as valid and commits to it. -/
def commitTo (pcl : List PreCommit) : Step α τ Unit := do
  updateValidValue engine (← getProposal (pcl.map (·.proposal)))
  castNextHeightFromPreCommits engine pcl

def tryCommitTo (pcl : List PreCommit) : Step α τ Bool := do
  let p ← getProposal (pcl.map (·.proposal))
  if ← tolerate Fault.tolerable (updateValidValue engine p) then
    tolerate Fault.tolerable (castNextHeightFromPreCommits engine pcl)
  else return false

def doPreCommitStep : Step α τ Unit := ifValidator do
  let rs ← roundStates
  let pcl := rs.currentPreCommits
  if rs.getCurrentThreshold ≤ pcl.length then commitTo engine pcl

def doPreCommitNilStep : Step α τ Unit := ifValidator do
  let rs ← roundStates
  let pcl := rs.currentPreCommits
  if rs.getCurrentThreshold ≤ pcl.length then commitTo engine pcl
  else if rs.getCurrentThreshold ≤ rs.currentPreCommitNils ∧ rs.rCert.rClaims.round ≠
    DEADBLOCKROUNDNR then
    castNextRound engine

def nextRoundDue (rs : RoundStates) : Bool :=
  rs.rCert.rClaims.round != DEADBLOCKROUND &&
    (rs.rCert.rClaims.round != DEADBLOCKROUNDNR ||
      rs.dbrnrExpired storage.deadBlockRoundNextRoundTimeout now) &&
    decide (rs.getCurrentThreshold ≤ rs.currentPreCommits.length + rs.currentPreCommitNils)

def doPendingNext : Step α τ Unit := ifValidator do
  let rs ← roundStates
  let pcl := rs.currentPreCommits
  let done ← if rs.getCurrentThreshold ≤ pcl.length then tryCommitTo engine pcl else pure false
  if !done && nextRoundDue now storage rs then castNextRound engine

def doNextRoundStep : Step α τ Unit := ifValidator do
  let rs ← roundStates
  let pcl := rs.currentPreCommits
  let done ← if rs.getCurrentThreshold ≤ pcl.length then tryCommitTo engine pcl else pure false
  if !done then
    let rs ← roundStates
    if rs.getCurrentThreshold ≤ rs.currentNextRounds.length then
      castNextRoundRCert engine now rs.currentNextRounds

def doRoundJump (rc : RCert) : Step α τ Unit := do
  let rs ← roundStates
  let pcl := rs.currentPreCommits
  if rs.getCurrentThreshold < pcl.length then
    let p ← getProposal (pcl.map (·.proposal))
    discard (tolerate Fault.tolerable (updateValidValue engine p))
  setMostRecentRCert now rc

def doCheckValidValue : Step α τ Unit := do
  let rs ← roundStates
  let nhl := rs.currentNextHeights
  let pcl := rs.currentPreCommits
  let pvl := rs.currentPreVotes
  if rs.getCurrentThreshold ≤ nhl.length then
    let nh ← lift (first nhl)
    if ← tolerate Fault.tolerable (updateValidValue engine nh.nhClaims.proposal) then
      discard (tolerate Fault.tolerable (castNewCommittedBlockHeader engine now nhl))
  else if rs.getCurrentThreshold < pcl.length then
    let p ← getProposal (pcl.map (·.proposal))
    discard (tolerate Fault.tolerable (updateValidValue engine p))
  else if rs.getCurrentThreshold ≤ pvl.length then
    let p ← getProposal (pvl.map (·.proposal))
    discard (tolerate Fault.tolerable (updateValidValue engine p))

def doNextHeightStep : Step α τ Unit := ifValidator do
  let rs ← roundStates
  let nhl := rs.currentNextHeights
  if rs.getCurrentThreshold ≤ nhl.length then
    discard (tolerate Fault.tolerable (castNewCommittedBlockHeader engine now nhl))

def certifiedValue (rs : RoundStates) (rcert : RCert) : Except Fault (Option Proposal) :=
  match rs.validValue with
  | some vv =>
    if rs.validValueCurrent then do
      let bhsh ← vv.pClaims.bClaims.blockHash engine.crypto
      if bhsh = rcert.rClaims.prevBlock then pure (some vv) else pure none
    else pure none
  | none => pure none

def jumpOverEmptyBlock (rs : RoundStates) (rcert : RCert) : Step α τ Bool := do
  let txRoot ← lift (engine.crypto.makeTxRoot [])
  let headerRoot ← lift ((← get).node.db.getHeaderTrieRoot rs.ownState.syncToBH.bClaims.height)
  let bh : BlockHeader :=
    ⟨emptyBClaims txRoot headerRoot rs.ownState.syncToBH rs.rCert, rcert.sigGroup, []⟩
  let bhash ← lift (bh.bClaims.blockHash engine.crypto)
  if bhash ≠ rcert.rClaims.prevBlock then return false
  let ok ← onNode (isValid engine rs.ownState.syncToBH bh.bClaims.chainID bh.bClaims.stateRoot
    bh.bClaims.headerRoot [])
  if !ok then return false
  match bh.validateSignatures engine.crypto with
  | .error _ => return false
  | .ok _ => do
    setMostRecentBlockHeader engine now bh
    return true

def doHeightJumpStep (rcert : RCert) : Step α τ Bool := do
  let rs ← roundStates
  if rcert.rClaims.height ≠ rs.rCert.rClaims.height + 1 then return false
  if rcert.rClaims.round ≠ 1 then return false
  match ← lift (certifiedValue engine rs rcert) with
  | some vv =>
    if ← tolerate Fault.tolerable (castNewCommittedBlockFromProposalAndRCert engine now vv
      rcert) then
      dropValues
      return true
    else return false
  | none => jumpOverEmptyBlock engine now rs rcert

/-- The validators' certificates of a later round of the node's height. -/
def currentHeightFutureRound (rs : RoundStates) : List RCert :=
  (rs.validatorStates.map (·.rCert)).filter fun rc =>
    relateH rs.rCert.hr rc.hr == .eq && relateHR rs.rCert.hr rc.hr == .lt

def futureHeight (rs : RoundStates) : List RCert :=
  (rs.validatorStates.map (·.rCert)).filter fun rc => relateH rs.rCert.hr rc.hr == .lt

/-- The first certificate of the greatest height, of those of round one. -/
def maxHeight : List RCert → Option RCert → Option RCert
  | [], best => best
  | rc :: rest, best =>
    let bar := (best.map (·.rClaims.height)).getD 0
    maxHeight rest (if bar < rc.rClaims.height ∧ rc.rClaims.round = 1 then some rc else best)

def maxRound : List RCert → Option RCert → Option RCert
  | [], best => best
  | rc :: rest, none => maxRound rest (some rc)
  | rc :: rest, some held =>
    maxRound rest (some (if held.rClaims.round < rc.rClaims.round then rc else held))

/-- From the own votes of the round down to a proposal. -/
def dispatch (rs : RoundStates) : Step α τ Unit := do
  let os := rs.ownRoundState
  let rcert := rs.rCert
  let pctoExpired := rs.pctoExpired storage.preCommitStepTimeout now
  let pvtoExpired := rs.pvtoExpired storage.preVoteStepTimeout now
  if os.nrCurrent rcert then doNextRoundStep engine now
  else if os.pcCurrent rcert then
    if pctoExpired then doPendingNext engine now storage else doPreCommitStep engine
  else if os.pcnCurrent rcert then
    if pctoExpired then doPendingNext engine now storage else doPreCommitNilStep engine
  else if os.pvCurrent rcert then
    if pvtoExpired then doPendingPreCommit engine now else doPreVoteStep engine now
  else if os.pvnCurrent rcert then
    if pvtoExpired then doPendingPreCommit engine now else doPreVoteNilStep engine now
  else if rs.ptoExpired storage.proposalStepTimeout now then doPendingPreVoteStep engine now
  else if rs.localIsProposer && !os.pCurrent rcert then doPendingProposalStep engine storage

def validatorStep (rs : RoundStates) : Step α τ Unit := do
  let os := rs.ownRoundState
  let rcert := rs.rCert
  let nhs := rs.currentNextHeights
  if os.nrCurrent rcert && rcert.rClaims.round == DEADBLOCKROUNDNR then doNextRoundStep engine now
  else if nhs ≠ [] then
    if os.nhCurrent rcert then doNextHeightStep engine now
    else castNextHeightFromNextHeight engine (← lift (first nhs))
  else
    match maxRound (currentHeightFutureRound rs) none with
    | some rc => doRoundJump engine now rc
    | none => dispatch engine now storage rs

def updateLocalStateInternal : Step α τ Bool := do
  let rs ← roundStates
  match maxHeight (futureHeight rs) none with
  | some rc => doHeightJumpStep engine now rc
  | none =>
    match (currentHeightFutureRound rs).find? fun rc => rc.rClaims.round == DEADBLOCKROUND with
    | some rc => do
      doRoundJump engine now rc
      return true
    | none =>
      if !rs.isCurrentValidator then
        doCheckValidValue engine now
        return (futureHeight rs).isEmpty
      else
        validatorStep engine now storage rs
        return true

end Steps

section Update

variable {α τ : Type} (engine : Engine α τ) (now : ℕ)

def loadSigners (vs : ValidatorSet) (ownState : OwnState) : List Validator →
    NodeStep α τ (Option Bool)
  | [] => return some true
  | v :: rest => do
    if v.vAddr = ownState.vAddr ∧ (vs.groupKey ≠ ownState.groupKey ∨ (← get).bnSigner = none) then
      if engine.privK v.groupShare then
        modify fun n => { n with bnSigner := some (v.groupShare, vs.groupKey) }
        match ← loadSigners vs ownState rest with
        | some _ => return some false
        | none => return none
      else return none
    else loadSigners vs ownState rest

/-- Applies a set that was waiting for its block. -/
def applyWaitingSet (vs : ValidatorSet) : NodeStep α τ Bool := do
  match (← get).db.validatorSetPostApplication vs.notBefore with
  | some vspa =>
    if vspa.groupKey ≠ vs.groupKey then
      addValidatorSetEdgecase engine vspa
      return true
    else return false
  | none => return false

def updateLoadedObjects (vs : ValidatorSet) (ownState : OwnState) (ovs : OwnValidatingState) :
    NodeStep α τ Bool := do
  let applied ← applyWaitingSet engine vs
  let validatorSet ← if applied then
      lift ((← get).db.getValidatorSet (ownState.syncToBH.bClaims.height + 1))
    else pure vs
  let renamed := { ownState with vAddr := engine.ethAcct }
  match ← loadSigners engine validatorSet renamed validatorSet.validators with
  | none => return false
  | some unchanged =>
    if !applied && unchanged && ownState == { renamed with groupKey := validatorSet.groupKey } then
      return true
    else
      onDB fun db => { db with
        ownValidatingState := some (OwnValidatingState.setRoundStarted now ovs)
        ownState := some { renamed with groupKey := validatorSet.groupKey } }
      return false

/-- Runs the local step on the round states and writes them back. -/
def updateRoundStates (storage : Storage) : NodeStep α τ Bool := do
  let n ← get
  let rs ← lift n.db.loadLocalState
  let behind := rs.ownState.syncToBH.bClaims.height + 1 ≤ rs.ownState.maxBHSeen.bClaims.height
  if behind then return false
  match updateLocalStateInternal engine now storage ⟨n, rs⟩ with
  | .ok isSync s => do
    set s.node
    let db ← lift (s.node.db.writeState engine.crypto s.rs)
    modify fun n => { n with db := db }
    return isSync
  | .error e s => do
    set s.node
    throw e

def updateLocalState (loadStorage : ℕ → Except Fault Storage) : NodeStep α τ Bool := do
  let n ← get
  let ownState ← lift n.db.getOwnState
  let bHeight := ownState.syncToBH.bClaims.height
  let rHeight := bHeight + 1
  let waiting := bHeight % EpochLength = 0 ∧ n.db.safeToProceed rHeight = false
  let ovs ← lift n.db.getOwnValidatingState
  flushCacheToDisk bHeight
  flushCacheToDisk rHeight
  let storage ← lift (loadStorage (epochOf rHeight))
  let vs ← lift ((← get).db.getValidatorSet rHeight)
  if ← updateLoadedObjects engine now vs ownState ovs then
    let isSync ← if waiting then do
        let rs ← lift (← get).db.loadLocalState
        pure (decide (rs.ownState.maxBHSeen.bClaims.height < rs.ownState.syncToBH.bClaims.height +
          1))
      else updateRoundStates engine now storage
    cleanCache bHeight
    return isSync
  else return true

end Update

end AliceNet.Consensus
