import AliceNet.Consensus.Store

/-! What a node does with an object that a peer sends. -/

namespace AliceNet.Consensus

open Outcome (require)

inductive Object
  | vote (v : Message)
  | blockHeader (v : BlockHeader)
  deriving Repr, DecidableEq

/-- An object with what `PreValidate` has learned about it. -/
structure Validated where
  object : Object
  origin : Origin
  deriving Repr, DecidableEq

def subOneNoZero (height : ℕ) : ℕ := if height ≤ 1 then 1 else height - 1

def normalizeHeightForRCERT (bHeight rHeight rNumber : ℕ) : ℕ :=
  if bHeight ≤ 2 ∨ rNumber = 1 then bHeight else rHeight

namespace Database

variable {τ : Type} (crypto : Crypto) (db : Database τ)

def validateRCERT (groupKey : GroupKey) (bHeight rHeight rNumber : ℕ) : Except Fault Unit :=
  if rHeight ≤ 2 then pure ()
  else do
    let vSet ← db.getValidatorSet (normalizeHeightForRCERT bHeight rHeight rNumber)
    require (vSet.groupKey = groupKey) (.invalid "bad rcert group key")

def proposalValidation (groupKey : GroupKey) (proposer : Address) (bHeight rHeight rNumber : ℕ) :
    Except Fault Unit := do
  db.validateRCERT groupKey bHeight rHeight rNumber
  let vSet ← db.getValidatorSet rHeight
  require (vSet.isValidTuple proposer vSet.groupKey = true)
    (.invalid "invalid proposer in state handlers")
  if rNumber = DEADBLOCKROUND then pure ()
  else
    require (vSet.addresses[getProposerIdx vSet.validators.length rHeight rNumber]? = some proposer)
      (.invalid "bad proposer")

/-- The certificate of a vote and, if it has one, its proposal. -/
def certifiedVote (groupKey : GroupKey) (proposer : Option Address) (bHeight rHeight rNumber : ℕ) :
    Except Fault Unit := do
  db.validateRCERT groupKey bHeight rHeight rNumber
  match proposer with
  | some p => db.proposalValidation groupKey p bHeight rHeight rNumber
  | none => pure ()

def coSigned (vSet : ValidatorSet) (coSigners : List Address) : Except Fault Unit :=
  require (∀ cs ∈ coSigners, vSet.isValidTuple cs vSet.groupKey = true) (.invalid "bad co signer")

def voteValidation (groupKey : GroupKey) (voter : Address) (proposer : Option Address)
    (coSigners : List Address) (bHeight rHeight rNumber : ℕ) : Except Fault Unit := do
  db.certifiedVote groupKey proposer bHeight rHeight rNumber
  let vSet ← db.getValidatorSet rHeight
  require (vSet.isValidTuple voter vSet.groupKey = true)
    (.invalid "invalid tuple in state handlers")
  coSigned vSet coSigners

def voteNilValidation (groupKey : GroupKey) (voter : Address) (bHeight rHeight rNumber : ℕ) :
    Except Fault Unit :=
  db.voteValidation groupKey voter none [] bHeight rHeight rNumber

def voteNextValidation (groupKey : GroupKey) (groupShare : GroupShare) (voter : Address)
    (proposer : Option Address) (coSigners : List Address) (bHeight rHeight rNumber : ℕ) :
    Except Fault Unit := do
  db.certifiedVote groupKey proposer bHeight rHeight rNumber
  let vSet ← db.getValidatorSet rHeight
  require (vSet.isValidTriplet voter groupShare vSet.groupKey = true)
    (.invalid "invalid triplet in state handlers")
  coSigned vSet coSigners

def blockHeaderValidation (groupKey : GroupKey) (bHeight : ℕ) : Except Fault Unit :=
  if bHeight ≤ 1 then pure ()
  else do
    let vSet ← db.getValidatorSet bHeight
    let vSet := (db.validatorSetPostApplication vSet.notBefore).getD vSet
    require (groupKey = vSet.groupKey) (.invalid "group key mismatch in state handlers")

def notStale (name : String) (roundCounts : Bool) (own vote : HR) : Except Fault Unit := do
  require (own.height ≤ vote.height)
    (.stale s!"{name} h<h-1: OwnH:{own.height} ObjH:{vote.height}")
  require (roundCounts = true → own.round ≤ vote.round)
    (.stale s!"{name} r<r-1: OwnR:{own.round} ObjR:{vote.round}")

def checkVote (own : HR) (v : Message) : Except Fault Origin := do
  let height := v.hr.height
  let round := v.hr.round
  let below := subOneNoZero height
  match v with
  | .rCert _ => throw (.other "Unknown type")
  | .proposal v =>
    notStale "Proposal" true own v.rCert.hr
    let origin ← v.validateSignatures crypto
    db.proposalValidation origin.groupKey (origin.proposer.getD 0) below height round
    pure origin
  | .preVote v =>
    notStale "PreVote" true own v.proposal.rCert.hr
    let origin ← v.validateSignatures crypto
    db.voteValidation origin.groupKey (origin.voter.getD 0) origin.proposer [] below height round
    pure origin
  | .preVoteNil v =>
    notStale "PreVoteNil" true own v.rCert.hr
    let origin ← v.validateSignatures crypto
    db.voteNilValidation origin.groupKey (origin.voter.getD 0) below height round
    pure origin
  | .preCommit v =>
    notStale "PreCommit" true own v.proposal.rCert.hr
    let origin ← v.validateSignatures crypto
    db.voteValidation origin.groupKey (origin.voter.getD 0) origin.proposer origin.signers below
      height round
    pure origin
  | .preCommitNil v =>
    notStale "PreCommitNil" true own v.rCert.hr
    let origin ← v.validateSignatures crypto
    db.voteNilValidation origin.groupKey (origin.voter.getD 0) below height round
    pure origin
  | .nextRound v =>
    notStale "NextRound" true own v.rCert.hr
    let origin ← v.validateSignatures crypto
    db.voteNextValidation origin.groupKey origin.groupShare (origin.voter.getD 0) none [] below
      height round
    pure origin
  | .nextHeight v =>
    notStale "NextHeight" false own v.rCert.hr
    let origin ← v.validateSignatures crypto
    db.voteNextValidation origin.groupKey origin.groupShare (origin.voter.getD 0) origin.proposer
      origin.signers below height round
    pure origin

def preValidate (object : Object) : Except Fault Origin := do
  let os ← db.getOwnState
  let rs ← db.getCurrentRoundState os.vAddr
  match object with
  | .vote v =>
    require (rs.rCert.rClaims.chainID = v.extractRCert.rClaims.chainID) (.invalid "cid mismatch")
    db.checkVote crypto rs.hr v
  | .blockHeader bh =>
    require (rs.rCert.rClaims.chainID = bh.bClaims.chainID) (.invalid "cid mismatch")
    let groupKey ← bh.validateSignatures crypto
    db.blockHeaderValidation groupKey bh.bClaims.height
    pure ⟨none, none, groupKey, 0, []⟩

/-- The round states after a vote of a peer. -/
def setVote (origin : Origin) : Message → PeerSetter Unit
  | .rCert _ => throw (.other "Unknown type")
  | .proposal v => RoundStates.setProposal crypto origin.proposer v
  | .preVote v => RoundStates.setPreVote crypto origin v
  | .preVoteNil v => RoundStates.setPreVoteNil crypto origin v
  | .preCommit v => RoundStates.setPreCommit crypto origin v
  | .preCommitNil v => RoundStates.setPreCommitNil crypto origin v
  | .nextRound v => RoundStates.setNextRound crypto origin v
  | .nextHeight v => RoundStates.setNextHeight crypto origin v

def store (v : Validated) : Except Fault (Database τ) :=
  match v.object with
  | .vote vote => do
    let roundState ← db.loadState vote.extractRCert
    match setVote crypto v.origin vote roundState with
    | .ok _ roundState => db.writeState crypto roundState
    | .error e _ => throw e
  | .blockHeader bh => do
    let rc ← bh.getRCert crypto
    let roundState ← db.loadState rc
    let ownState := roundState.ownState
    require (ownState.maxBHSeen.bClaims.height < bh.bClaims.height)
      (.invalid "stale bh  - <= MaxBHSeen")
    require (ownState.syncToBH.bClaims.height < bh.bClaims.height)
      (.invalid "stale bh - <= SyncTOBH ")
    db.writeState crypto { roundState with ownState := { ownState with maxBHSeen := bh } }

end Database

end AliceNet.Consensus
