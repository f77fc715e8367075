import AliceNet.Consensus.Admin

/-! Casting votes. -/

namespace AliceNet.Consensus

open Outcome (require)
open Stateful (lift focus)

/-- A transaction with the round states loaded in it. -/
structure Session (α τ : Type) where
  node : Node α τ
  rs : RoundStates

abbrev Step (α τ : Type) := EStateM Fault (Session α τ)

section Primitives

variable {α τ : Type}

def onNode {β : Type} (step : NodeStep α τ β) : Step α τ β :=
  focus (·.node) (fun node s => { s with node := node }) step

def onOwn {β : Type} (step : EStateM Fault RoundState β) : Step α τ β :=
  focus (·.rs.ownRoundState) (fun own s => { s with rs := s.rs.putPeer s.rs.ownState.vAddr own })
    step

def onOwnState (f : OwnState → OwnState) : Step α τ Unit :=
  modify fun s => { s with rs := { s.rs with ownState := f s.rs.ownState } }

def onValidatingState (f : OwnValidatingState → OwnValidatingState) : Step α τ Unit :=
  modify fun s => { s with rs := { s.rs with ownValidatingState := s.rs.ownValidatingState.map f } }

def setBroadcast (v : Message) : Step α τ Unit :=
  modify fun s =>
    { s with node := { s.node with
    db := { s.node.db with broadcast := s.node.db.broadcast ++ [v] } } }

def roundStates : Step α τ RoundStates := do return (← get).rs

/-- The first of a list that the caller has found not to be empty. -/
def first {β : Type} : List β → Except Fault β
  | item :: _ => pure item
  | [] => throw (.other "index out of range")

end Primitives

section Signing

variable {α τ : Type} (engine : Engine α τ)

def sign (statement : Statement) : Step α τ Signature := do
  let signature ← lift (engine.crypto.secpSign statement)
  modify fun s => { s with node := { s.node with signed := s.node.signed ++ [statement] } }
  return signature

def bnSign (statement : GroupStatement) : Step α τ Signature := do
  match (← get).node.bnSigner with
  | some (share, _) => lift (engine.crypto.bnSign share statement)
  | none => throw (.other "invalid")

def bnAggregate (sigs : List Signature) (groupShares : List GroupShare) : Step α τ Signature := do
  match (← get).node.bnSigner with
  | some (_, groupKey) => lift (engine.crypto.aggregate groupKey sigs groupShares)
  | none => throw (.other "invalid")

def Proposal.sign (p : Proposal) : Step α τ Proposal := do
  lift (require (p.rCert.rClaims.round ≤ DEADBLOCKROUND)
    (.invalid "Proposal.Sign; Proposal.Round > DBR"))
  let signature ← Consensus.sign engine (.proposal p.pClaims)
  return { p with signature := signature }

def Proposal.rePropose (p : Proposal) (rc : RCert) : Step α τ Proposal := do
  lift p.unmarshalCapn
  lift rc.unmarshalCapn
  Proposal.sign engine { p with pClaims := { p.pClaims with rCert := rc } }

def Proposal.preVote (p : Proposal) : Step α τ PreVote := do
  lift p.unmarshalCapn
  let signature ← Consensus.sign engine (.preVote p.pClaims)
  return ⟨p, signature⟩

def RCert.preVoteNil (rc : RCert) : Step α τ PreVoteNil := do
  lift rc.unmarshalCapn
  let signature ← Consensus.sign engine (.preVoteNil rc)
  return ⟨rc, signature⟩

def RCert.preCommitNil (rc : RCert) : Step α τ PreCommitNil := do
  lift rc.unmarshalCapn
  let signature ← Consensus.sign engine (.preCommitNil rc)
  return ⟨rc, signature⟩

def makePreCommit (pvl : List PreVote) : Step α τ PreCommit := do
  let pv ← lift (first pvl)
  lift pv.proposal.unmarshalCapn
  let signature ← Consensus.sign engine (.preCommit pv.proposal.pClaims)
  return ⟨pv.proposal, signature, pvl.map (·.signature)⟩

/-- `RCert.NextRound`: the share signs the claims of the round after. -/
def RCert.nextRound (rc : RCert) : Step α τ NextRound := do
  lift rc.rClaims.marshalBinary
  lift rc.unmarshalCapn
  let rClaims := { rc.rClaims with round := rc.rClaims.round + 1 }
  lift rClaims.marshalBinary
  let sigShare ← bnSign engine (.rClaims rClaims)
  let nrClaims : NRClaims := ⟨rc, rClaims, sigShare⟩
  let signature ← Consensus.sign engine (.nextRound nrClaims)
  return ⟨nrClaims, signature⟩

def NextHeight.sign (nh : NextHeight) : Step α τ NextHeight := do
  let p := nh.nhClaims.proposal
  let signature ← Consensus.sign engine (.nextHeight p.pClaims)
  let hash ← lift (p.pClaims.bClaims.blockHash engine.crypto)
  let sigShare ← bnSign engine (.block hash)
  return { nh with signature := signature, nhClaims := { nh.nhClaims with sigShare := sigShare } }

def makeNextHeight (pcl : List PreCommit) : Step α τ NextHeight := do
  let pc ← lift (first pcl)
  lift pc.proposal.unmarshalCapn
  NextHeight.sign engine ⟨⟨pc.proposal, 0⟩, 0, pcl.map (·.signature)⟩

def NextHeight.plagiarize (nh : NextHeight) : Step α τ NextHeight := do
  lift (Message.nextHeight nh).unmarshalCapn
  NextHeight.sign engine nh

end Signing

section Setters

variable {α τ : Type} (engine : Engine α τ) (now : ℕ)

/-- A vote goes to the own round state; a conflict there cannot be. -/
def setOwn (v : Message) : Step α τ Unit := do
  let ok ← onOwn (RoundState.set engine.crypto v)
  if !ok then throw .corrupt

def setMostRecentRCert (v : RCert) : Step α τ Unit := do
  onValidatingState (OwnValidatingState.setRoundStarted now)
  onOwn (RoundState.setRCert v)

def setPreVoteStepStarted : Step α τ Unit :=
  onValidatingState fun b =>
    { b with preVoteStepStarted := now / 10 ^ 9, preCommitStepStarted := 0 }

def setPreCommitStepStarted : Step α τ Unit :=
  onValidatingState fun b => { b with preCommitStepStarted := now / 10 ^ 9 }

def setMostRecentValidValue (v : Proposal) : Step α τ Unit :=
  onValidatingState fun b => { b with validValue := some v }

def setMostRecentLockedValue (v : Proposal) : Step α τ Unit :=
  onValidatingState fun b => { b with validValue := some v, lockedValue := some v }

def dropValues : Step α τ Unit := onValidatingState fun b =>
    { b with validValue := none, lockedValue := none }

def setMostRecentProposal (v : Proposal) : Step α τ Unit := setOwn engine (.proposal v)

def setMostRecentPreVote (v : PreVote) : Step α τ Unit := do
  setPreVoteStepStarted now
  setOwn engine (.preVote v)

def setMostRecentPreVoteNil (v : PreVoteNil) : Step α τ Unit := do
  setPreVoteStepStarted now
  setOwn engine (.preVoteNil v)

def setMostRecentPreCommit (v : PreCommit) : Step α τ Unit := do
  setPreCommitStepStarted now
  setOwn engine (.preCommit v)
  setMostRecentLockedValue v.proposal

def setMostRecentPreCommitNil (v : PreCommitNil) : Step α τ Unit := do
  setPreCommitStepStarted now
  setOwn engine (.preCommitNil v)

def setMostRecentNextRound (v : NextRound) : Step α τ Unit := setOwn engine (.nextRound v)

def setMostRecentNextHeight (v : NextHeight) : Step α τ Unit := do
  setOwn engine (.nextHeight v)
  setMostRecentLockedValue v.nhClaims.proposal

def setMostRecentBlockHeader (v : BlockHeader) : Step α τ Unit := do
  onNode (applyState engine (← roundStates).ownState.syncToBH v.bClaims.chainID v.txHshLst)
  let rc ← lift (v.getRCert engine.crypto)
  setMostRecentRCert now rc
  onNode (setCommittedBlockHeader engine v)
  onOwnState fun os =>
    let os := { os with
      syncToBH := v
      maxBHSeen := if os.maxBHSeen.bClaims.height < v.bClaims.height then v else os.maxBHSeen }
    if v.bClaims.height % EpochLength = 0 then
      { os with canonicalSnapShot := os.pendingSnapShot, pendingSnapShot := v }
    else os

end Setters

section Casting

variable {α τ : Type} (engine : Engine α τ) (now : ℕ) (storage : Storage)

def updateValidValue (p : Proposal) : Step α τ Unit := do
  let rs ← roundStates
  let (txs, _) ← onNode (tryCatch (getTxs engine p.pClaims.bClaims.height p.txHshLst)
    fun e => if e = .missingTransactions then pure ([], []) else throw e)
  let ok ← onNode (isValid engine rs.ownState.syncToBH p.pClaims.bClaims.chainID
    p.pClaims.bClaims.stateRoot p.pClaims.bClaims.headerRoot txs)
  if !ok then throw (.invalid "proposal is invalid in update vv")
  setMostRecentValidValue p

/-- Whether the node has a vote; each cast starts with this. -/
def ifValidator (cast : Step α τ Unit) : Step α τ Unit := do
  if (← roundStates).isCurrentValidator then cast else return

/-- The proposal that `castNewProposalValue` signs. -/
def newProposal (rs : RoundStates) (value : ValidValue) : Proposal :=
  let sync := rs.ownState.syncToBH.bClaims
  let rc := rs.rCert
  { pClaims :=
      { bClaims :=
          { chainID := sync.chainID
            height := sync.height + 1
            txCount := value.txHashes.length % 2 ^ 32
            prevBlock := rc.rClaims.prevBlock
            txRoot := value.txRootHash
            stateRoot := value.stateRoot.getD 0
            headerRoot := value.headerRoot }
        rCert :=
          { sigGroup := rc.sigGroup
            rClaims := ⟨sync.chainID, sync.height + 1, rc.rClaims.round, rc.rClaims.prevBlock⟩ } }
    signature := 0
    txHshLst := value.txHashes }

def castNewProposalValue : Step α τ Unit := ifValidator do
  let rs ← roundStates
  let value ← onNode (getValidValue engine storage.maxProposalSize rs.ownState.syncToBH)
  let p ← (newProposal rs value).sign engine
  discard (lift (p.validateSignatures engine.crypto))
  updateValidValue engine p
  setMostRecentProposal engine p
  setBroadcast (.proposal p)

def castProposalFromValue (prop : Proposal) : Step α τ Unit := ifValidator do
  let p ← prop.rePropose engine (← roundStates).rCert
  discard (lift (p.validateSignatures engine.crypto))
  setMostRecentProposal engine p
  setBroadcast (.proposal p)

def castPreVote (p : Proposal) : Step α τ Unit := ifValidator do
  let pv ← p.preVote engine
  discard (lift (pv.validateSignatures engine.crypto))
  setMostRecentValidValue p
  setMostRecentPreVote engine now pv
  setBroadcast (.preVote pv)

/-- The other votes are queued before they are filed. -/
def publish {β : Type} (make : Step α τ β) (message : β → Message) (file : β → Step α τ Unit) :
    Step α τ Unit := ifValidator do
  let v ← make
  discard (lift ((message v).validateSignatures engine.crypto))
  setBroadcast (message v)
  file v

def castPreVoteNil : Step α τ Unit :=
  publish engine (do (← roundStates).rCert.preVoteNil engine) .preVoteNil
    (setMostRecentPreVoteNil engine now)

def castPreVoteWithLock (lock p : Proposal) : Step α τ Unit := ifValidator do
  if ← lift (bClaimsEqual engine.crypto lock.pClaims.bClaims p.pClaims.bClaims) then
    castPreVote engine now p
  else castPreVoteNil engine now

def castPreCommit (preVotes : List PreVote) : Step α τ Unit :=
  publish engine (makePreCommit engine preVotes) .preCommit (setMostRecentPreCommit engine now)

def castPreCommitNil : Step α τ Unit :=
  publish engine (do (← roundStates).rCert.preCommitNil engine) .preCommitNil
    (setMostRecentPreCommitNil engine now)

def castNextRound : Step α τ Unit :=
  publish engine (do
    let rc := (← roundStates).rCert
    lift rc.unmarshalCapn
    rc.nextRound engine) .nextRound (setMostRecentNextRound engine)

def castNextHeightFromNextHeight (nh : NextHeight) : Step α τ Unit :=
  publish engine (nh.plagiarize engine) .nextHeight (setMostRecentNextHeight engine)

def castNextHeightFromPreCommits (preCommits : List PreCommit) : Step α τ Unit :=
  publish engine (makeNextHeight engine preCommits) .nextHeight (setMostRecentNextHeight engine)

def groupShares (vs : ValidatorSet) : List GroupShare := vs.validators.map Validator.groupShare

def makeRoundCert (nrl : List NextRound) : Step α τ RCert := do
  let sigGroup ← bnAggregate engine (nrl.map (·.nrClaims.sigShare))
    (groupShares (← roundStates).validatorSet)
  let nr ← lift (first nrl)
  return ⟨sigGroup, nr.nrClaims.rClaims⟩

def castNextRoundRCert (nextRounds : List NextRound) : Step α τ Unit :=
  publish engine (makeRoundCert engine nextRounds) .rCert (setMostRecentRCert now)

def makeBlockHeader (nhl : List NextHeight) : Step α τ (BlockHeader × RCert) := do
  let sigGroup ← bnAggregate engine (nhl.map (·.nhClaims.sigShare))
    (groupShares (← roundStates).validatorSet)
  let nh ← lift (first nhl)
  let p := nh.nhClaims.proposal
  lift p.pClaims.bClaims.unmarshalCapn
  let bh : BlockHeader := ⟨p.pClaims.bClaims, sigGroup, p.txHshLst⟩
  let rc ← lift (bh.getRCert engine.crypto)
  return (bh, rc)

def castNewCommittedBlockHeader (nextHeights : List NextHeight) : Step α τ Unit := do
  let (bh, rc) ← makeBlockHeader engine nextHeights
  discard (lift (rc.validateSignature engine.crypto))
  discard (lift (bh.validateSignatures engine.crypto))
  setMostRecentBlockHeader engine now bh

def castNewCommittedBlockFromProposalAndRCert (p : Proposal) (rc : RCert) : Step α τ Unit := do
  let bh : BlockHeader := ⟨p.pClaims.bClaims, rc.sigGroup, p.txHshLst⟩
  discard (lift (bh.validateSignatures engine.crypto))
  setMostRecentBlockHeader engine now bh

end Casting

end AliceNet.Consensus
