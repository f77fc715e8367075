import AliceNet.Consensus.RoundState

/-! The database of a node, and the round states that a transaction loads from it, changes and
writes back. -/

namespace AliceNet.Consensus

open Function

open Outcome (require)
open Stateful (lift focus)

structure OwnState where
  vAddr : Address
  groupKey : GroupKey
  syncToBH : BlockHeader
  maxBHSeen : BlockHeader
  canonicalSnapShot : BlockHeader
  pendingSnapShot : BlockHeader
  deriving Repr, DecidableEq

structure OwnValidatingState where
  roundStarted : ℕ
  preVoteStepStarted : ℕ
  preCommitStepStarted : ℕ
  lockedValue : Option Proposal
  validValue : Option Proposal
  deriving Repr, DecidableEq

/-- The entry of `table` with the greatest key up to `n`. -/
def latest {β : Type} (table : ℕ → Option β) : ℕ → Option β
  | 0 => table 0
  | n + 1 => (table (n + 1)).orElse fun _ => latest table n

/-- Heights have no bound: a header of the last one gives a certificate that no load accepts. -/
structure Database (τ : Type) where
  ownState : Option OwnState
  ownValidatingState : Option OwnValidatingState
  currentRoundState : Address → Option RoundState
  validatorSet : ℕ → Option ValidatorSet
  validatorSetPostApplication : ℕ → Option ValidatorSet
  committedBlockHeader : ℕ → Option BlockHeader
  snapshotBlockHeader : ℕ → Option BlockHeader
  headerTrieRoot : ℕ → Option Hash
  currentHeaderRoot : Option Hash
  safeToProceed : ℕ → Bool
  txCache : ℕ → Hash → Option τ
  broadcast : List Message

def OwnState.unmarshalCapn (b : OwnState) : Except Fault Unit := do
  b.syncToBH.unmarshalCapn
  b.maxBHSeen.unmarshalCapn
  b.canonicalSnapShot.unmarshalCapn
  b.pendingSnapShot.unmarshalCapn

def unmarshalOption (vote : Option Message) : Except Fault Unit :=
  match vote with
  | some v => v.unmarshalCapn
  | none => pure ()

def OwnValidatingState.unmarshalCapn (b : OwnValidatingState) : Except Fault Unit := do
  unmarshalOption (b.lockedValue.map .proposal)
  unmarshalOption (b.validValue.map .proposal)

def RoundState.unmarshalCapn (b : RoundState) : Except Fault Unit := do
  b.rCert.unmarshalCapn
  unmarshalOption (b.conflictingRCert.map .rCert)
  unmarshalOption (b.proposal.map .proposal)
  unmarshalOption (b.conflictingProposal.map .proposal)
  unmarshalOption (b.preVote.map .preVote)
  unmarshalOption (b.conflictingPreVote.map .preVote)
  unmarshalOption (b.preVoteNil.map .preVoteNil)
  unmarshalOption (b.preCommit.map .preCommit)
  unmarshalOption (b.conflictingPreCommit.map .preCommit)
  unmarshalOption (b.preCommitNil.map .preCommitNil)
  unmarshalOption (b.nextRound.map .nextRound)
  unmarshalOption (b.nextHeight.map .nextHeight)
  unmarshalOption (b.conflictingNextHeight.map .nextHeight)

namespace Database

variable {τ : Type} (db : Database τ)

def found {β : Type} (entry : Option β) (check : β → Except Fault Unit) : Except Fault β :=
  match entry with
  | some value => do
    check value
    pure value
  | none => throw .keyNotFound

/-- The same where a missing entry is no error. -/
def foundOrNil {β : Type} (entry : Option β) (check : β → Except Fault Unit) :
    Except Fault (Option β) :=
  match entry with
  | some value => do
    check value
    pure (some value)
  | none => pure none

def getOwnState : Except Fault OwnState := found db.ownState OwnState.unmarshalCapn

def getOwnValidatingState : Except Fault OwnValidatingState :=
  found db.ownValidatingState OwnValidatingState.unmarshalCapn

def getCurrentRoundState (vAddr : Address) : Except Fault RoundState :=
  found (db.currentRoundState vAddr) RoundState.unmarshalCapn

def getValidatorSet (height : ℕ) : Except Fault ValidatorSet :=
  found (latest db.validatorSet height) fun _ => pure ()

def getCommittedBlockHeader (height : ℕ) : Except Fault (Option BlockHeader) :=
  foundOrNil (db.committedBlockHeader height) BlockHeader.unmarshalCapn

def getSnapshotByHeight (height : ℕ) : Except Fault (Option BlockHeader) :=
  foundOrNil (latest db.snapshotBlockHeader height) BlockHeader.unmarshalCapn

def getHeaderTrieRoot (height : ℕ) : Except Fault Hash := found (db.headerTrieRoot height) fun _ =>
    pure ()

def setCurrentRoundState (vAddr : Address) (rs : RoundState) : Database τ :=
  { db with currentRoundState := update db.currentRoundState vAddr (some rs) }

def setValidatorSet (v : ValidatorSet) : Database τ :=
  { db with validatorSet := update db.validatorSet v.notBefore (some v) }

def setValidatorSetPostApplication (v : ValidatorSet) (height : ℕ) : Database τ :=
  { db with validatorSetPostApplication := update db.validatorSetPostApplication height (some v) }

def setSnapshotBlockHeader (v : BlockHeader) : Database τ :=
  { db with snapshotBlockHeader := update db.snapshotBlockHeader v.bClaims.height (some v) }

def setTxCacheItem (height : ℕ) (txHash : Hash) (tx : τ) : Database τ :=
  { db with txCache := update db.txCache height (update (db.txCache height) txHash (some tx)) }

end Database

structure RoundStates where
  height : ℕ
  round : ℕ
  ownState : OwnState
  validatorSet : ValidatorSet
  ownValidatingState : Option OwnValidatingState
  /-- Meaningful at the keys of the map, which are `members`. -/
  peerStateMap : Address → RoundState

namespace RoundStates

variable (r : RoundStates)

def members : List Address := (r.ownState.vAddr :: r.validatorSet.addresses).dedup

def ownRoundState : RoundState := r.peerStateMap r.ownState.vAddr

def isCurrentValidator : Bool := r.validatorSet.addresses.contains r.ownState.vAddr

def localIsProposer : Bool :=
  (r.validatorSet.addresses[getProposerIdx r.validatorSet.validators.length r.height r.round]?) ==
    some r.ownState.vAddr

/-- The round states of the validators, in the order of the set. -/
def validatorStates : List RoundState := r.validatorSet.addresses.map r.peerStateMap

def rCert : RCert := r.ownRoundState.rCert

def getCurrentProposal : Option Proposal :=
  match r.validatorSet.addresses[
      getProposerIdx r.validatorSet.addresses.dedup.length r.height r.round]? with
  | some vAddr =>
    let proposer := r.peerStateMap vAddr
    if proposer.pCurrent r.rCert then proposer.proposal else none
  | none => none

def currentPreVotes : List PreVote :=
  (r.validatorStates.filter (·.pvCurrent r.rCert)).filterMap (·.preVote)

def currentPreVoteNils : ℕ := (r.validatorStates.filter (·.pvnCurrent r.rCert)).length

def currentPreCommits : List PreCommit :=
  (r.validatorStates.filter (·.pcCurrent r.rCert)).filterMap (·.preCommit)

def currentPreCommitNils : ℕ := (r.validatorStates.filter (·.pcnCurrent r.rCert)).length

def currentNextHeights : List NextHeight :=
  (r.validatorStates.filter (·.nhCurrent r.rCert)).filterMap (·.nextHeight)

def currentNextRounds : List NextRound :=
  (r.validatorStates.filter (·.nrCurrent r.rCert)).filterMap (·.nextRound)

def lockedValue : Option Proposal := r.ownValidatingState.bind (·.lockedValue)
def validValue : Option Proposal := r.ownValidatingState.bind (·.validValue)

/-- Whether a value is of the height that the node is at. -/
def valueCurrent (value : Option Proposal) : Bool :=
  match value with
  | some v => relateH r.ownRoundState.hr v.rCert.hr == .eq
  | none => false

def lockedValueCurrent : Bool := r.valueCurrent r.lockedValue
def validValueCurrent : Bool := r.valueCurrent r.validValue

def getCurrentThreshold : ℕ := calcThreshold r.members.length + 1

end RoundStates

abbrev PeerSetter := EStateM Fault RoundStates

namespace RoundStates

variable (crypto : Crypto)

def putPeer (vAddr : Address) (rs : RoundState) (r : RoundStates) : RoundStates :=
  { r with peerStateMap := update r.peerStateMap vAddr rs }

def onPeer {α : Type} (vAddr : Address) (step : EStateM Fault RoundState α) : PeerSetter α :=
  focus (·.peerStateMap vAddr) (putPeer vAddr) step

/-- The address, if the map has a round state for it. -/
def known (vAddr : Option Address) (text : String) : PeerSetter Address := do
  let r ← get
  match vAddr with
  | some a => if a ∈ r.members then pure a else throw (.invalid text)
  | none => throw (.invalid text)

def setProposal (proposer : Option Address) (p : Proposal) : PeerSetter Unit := do
  let a ← known proposer "round state is nil in set prop"
  discard (onPeer a (RoundState.setProposal crypto p))

/-- The proposal inside a vote is kept too, unless it is stale. -/
def setInnerProposal (proposer : Option Address) (p : Proposal) : PeerSetter Unit :=
  tryCatch (setProposal crypto proposer p) fun e => if e.isStale then pure () else throw e

def setPreVote (origin : Origin) (pv : PreVote) : PeerSetter Unit := do
  setInnerProposal crypto origin.proposer pv.proposal
  let a ← known origin.voter "rs nil in set prevote"
  discard (onPeer a (RoundState.setPreVote crypto pv))

def setPreVoteNil (origin : Origin) (pvn : PreVoteNil) : PeerSetter Unit := do
  let a ← known origin.voter "rs nil in pvn"
  discard (onPeer a (RoundState.setPreVoteNil crypto pvn))

def makeImplPreVotes (origin : Origin) (pc : PreCommit) : List (Address × PreVote) :=
  (pc.preVotes.zip origin.signers).map fun vote => (vote.2, ⟨pc.proposal, vote.1⟩)

def setImplPreVotes : List (Address × PreVote) → PeerSetter Bool
  | [] => pure true
  | (voter, pv) :: rest => do
    let a ← known (some voter) "rs nil in set prevote"
    let fine ← tryCatch (do discard (onPeer a (RoundState.setPreVote crypto pv)); pure true)
      fun e => pure e.isStale
    if fine then setImplPreVotes rest else pure false

def setPreCommit (origin : Origin) (pc : PreCommit) : PeerSetter Unit := do
  setInnerProposal crypto origin.proposer pc.proposal
  if pc.preVotes ≠ [] then lift (Message.preCommit pc).unmarshalCapn
  let fine ← setImplPreVotes crypto (makeImplPreVotes origin pc)
  let a ← known origin.voter "rs nil in pc"
  if fine then discard (onPeer a (RoundState.setPreCommit crypto pc))
  else onPeer a (modify fun rs => { rs with implicitPCN := true })

def setPreCommitNil (origin : Origin) (pcn : PreCommitNil) : PeerSetter Unit := do
  let a ← known origin.voter "rs nil in pcn"
  discard (onPeer a (RoundState.setPreCommitNil crypto pcn))

def setNextHeight (origin : Origin) (nh : NextHeight) : PeerSetter Unit := do
  setInnerProposal crypto origin.proposer nh.nhClaims.proposal
  let a ← known origin.voter "rs nil in nh"
  discard (onPeer a (RoundState.setNextHeight crypto nh))

def setNextRound (origin : Origin) (nr : NextRound) : PeerSetter Unit := do
  let a ← known origin.voter "rs nil in nr"
  discard (onPeer a (RoundState.setNextRound crypto nr))

end RoundStates

namespace Database

variable {τ : Type} (crypto : Crypto) (db : Database τ)

def loadPeer (rcert : RCert) (groupKey : GroupKey) (vAddr : Address) : Except Fault RoundState := do
  match ← foundOrNil (db.currentRoundState vAddr) RoundState.unmarshalCapn with
  | some rstate => pure rstate
  | none => do
    rcert.unmarshalCapn
    pure (RoundState.initial groupKey rcert)

def loadPeers (rcert : RCert) (groupKey : GroupKey) :
    List Address → (Address → RoundState) → Except Fault (Address → RoundState)
  | [], map => pure map
  | vAddr :: rest, map => do
    let rstate ← db.loadPeer rcert groupKey vAddr
    loadPeers rcert groupKey rest (update map vAddr rstate)

def loadState (rcert : RCert) : Except Fault RoundStates := do
  let validatorSet ← db.getValidatorSet rcert.rClaims.height
  let ownState ← db.getOwnState
  let own ← db.getCurrentRoundState ownState.vAddr
  let peers ← db.loadPeers rcert validatorSet.groupKey validatorSet.addresses fun _ => own
  let ownValidatingState ← foundOrNil db.ownValidatingState OwnValidatingState.unmarshalCapn
  pure {
    height := rcert.rClaims.height
    round :=
      if rcert.rClaims.round = 0 ∧ ownState.vAddr ∈ validatorSet.addresses then
        own.rCert.rClaims.round
      else rcert.rClaims.round
    ownState := ownState
    validatorSet := validatorSet
    ownValidatingState := ownValidatingState
    peerStateMap := peers }

def loadLocalState : Except Fault RoundStates := do
  let ownState ← db.getOwnState
  let rs ← db.getCurrentRoundState ownState.vAddr
  db.loadState rs.rCert

def conflictCheckerValue (r : RoundStates) : Option Proposal :=
  if r.lockedValueCurrent then r.lockedValue
  else if r.validValueCurrent then r.validValue
  else none

def checkedPeer (r : RoundStates) (vAddr : Address) : RoundState :=
  match conflictCheckerValue r with
  | some value => (r.peerStateMap vAddr).trackExternalConflicts crypto value
  | none => r.peerStateMap vAddr

def writeState (r : RoundStates) : Except Fault (Database τ) :=
  let plain := r.validatorSet.addresses.foldl
    (fun db vAddr => db.setCurrentRoundState vAddr (r.peerStateMap vAddr)) { db with
      ownState := some r.ownState }
  let own := plain.setCurrentRoundState r.ownState.vAddr r.ownRoundState
  match r.ownValidatingState with
  | none => throw (.invalid "OwnValidatingState.MarshalBinary; ovs not initialized")
  | some ovs =>
    pure (r.validatorSet.addresses.foldl
      (fun db vAddr => db.setCurrentRoundState vAddr (checkedPeer crypto r vAddr))
      { own with ownValidatingState := some ovs })

end Database

end AliceNet.Consensus
