import AliceNet.Consensus.Objects

/-! What a node remembers of one validator: the certificate of its round and its votes. -/

namespace AliceNet.Consensus

structure RoundState where
  groupKey : GroupKey
  rCert : RCert
  conflictingRCert : Option RCert
  proposal : Option Proposal
  conflictingProposal : Option Proposal
  preVote : Option PreVote
  conflictingPreVote : Option PreVote
  preVoteNil : Option PreVoteNil
  implicitPVN : Bool
  preCommit : Option PreCommit
  conflictingPreCommit : Option PreCommit
  preCommitNil : Option PreCommitNil
  implicitPCN : Bool
  nextRound : Option NextRound
  nextHeight : Option NextHeight
  conflictingNextHeight : Option NextHeight
  deriving Repr, DecidableEq

namespace RoundState

def hr (b : RoundState) : HR := b.rCert.hr

/-- The record of a validator that has not voted. -/
def initial (groupKey : GroupKey) (rCert : RCert) : RoundState :=
  ⟨groupKey, rCert, none, none, none, none, none, none, false, none, none, none, false, none, none,
    none⟩

def reset (b : RoundState) (rCert : RCert) : RoundState :=
  { initial b.groupKey rCert with
    nextHeight := b.nextHeight, conflictingNextHeight := b.conflictingNextHeight }

/-- Whether a vote, if there is one, is of the round `a`. -/
def currentHR (a : HR) (vote : Option Message) : Bool :=
  match vote with
  | some v => relateHR a v.hr == .eq
  | none => false

def pCurrent (b : RoundState) (a : RCert) : Bool := currentHR a.hr (b.proposal.map .proposal)
def pvCurrent (b : RoundState) (a : RCert) : Bool := currentHR a.hr (b.preVote.map .preVote)
def pvnCurrent (b : RoundState) (a : RCert) : Bool := currentHR a.hr (b.preVoteNil.map .preVoteNil)
def pcCurrent (b : RoundState) (a : RCert) : Bool := currentHR a.hr (b.preCommit.map .preCommit)
def pcnCurrent (b : RoundState) (a : RCert) : Bool :=
    currentHR a.hr (b.preCommitNil.map .preCommitNil)
def nrCurrent (b : RoundState) (a : RCert) : Bool := currentHR a.hr (b.nextRound.map .nextRound)

def nhCurrent (b : RoundState) (a : RCert) : Bool :=
  match b.nextHeight with
  | some v =>
    if isDeadBlockRound a.hr || isDeadBlockRound b.hr then relateHR a.hr v.rCert.hr == .eq
    else relateH a.hr v.rCert.hr == .eq
  | none => false

def setType (b : RoundState) : Message → RoundState
  | .rCert v => { b with rCert := v }
  | .proposal v => { b with proposal := some v }
  | .preVote v => { b with preVote := some v }
  | .preVoteNil v => { b with preVoteNil := some v }
  | .preCommit v => { b with preCommit := some v }
  | .preCommitNil v => { b with preCommitNil := some v }
  | .nextRound v => { b with nextRound := some v }
  | .nextHeight v => { b with nextHeight := some v }

/-- Whether `setReset` drops the `NextHeight` too. -/
def dropsNextHeight (b : RoundState) (v : Message) : Bool :=
  let isFutureHeight := relateH b.hr v.hr == .lt
  match v with
  | .nextRound _ => v.hr.round == DEADBLOCKROUNDNR || isFutureHeight
  | _ => v.hr.round == DEADBLOCKROUND || isFutureHeight

def setReset (b : RoundState) (v : Message) : RoundState :=
  let b := if b.dropsNextHeight v then
    { b with nextHeight := none, conflictingNextHeight := none } else b
  (b.reset v.extractRCert).setType v

def setTypeConflict (b : RoundState) (v : Message) (internal : Bool) : RoundState :=
  let b := if internal then
      match v with
      | .proposal v => { b with conflictingProposal := some v }
      | .preVote v => { b with conflictingPreVote := some v }
      | .preCommit v => { b with conflictingPreCommit := some v }
      | .nextHeight v => { b with conflictingNextHeight := some v }
      | _ => { b with conflictingRCert := some v.extractRCert }
    else b
  { b with implicitPVN := true, implicitPCN := true }

def resetNHForDBR (b : RoundState) (v : Message) : RoundState :=
  if isDeadBlockRound v.hr then
    { b with
      nextHeight := b.nextHeight.filter fun held => isDeadBlockRound held.rCert.hr
      conflictingNextHeight := b.conflictingNextHeight.filter fun held =>
        isDeadBlockRound held.rCert.hr }
  else b

abbrev Setter := EStateM Fault RoundState

open Outcome (require)
open Stateful (lift)

def checkSameTypeConflict (b : RoundState) (v : Message) : Except Fault Unit := do
  require (b.implicitPVN = false ∧ b.implicitPCN = false)
    (.invalid "RoundState.checkSameTypeConflict; pvn or pcn implicit nil set")
  require (b.conflictingRCert = none) (.invalid "RoundState.checkSameTypeConflict; conflicting rc")
  match v with
  | .rCert _ => throw (.other "RoundState.checkSameTypeConflict; bad type in check same conflict")
  | .proposal _ =>
    require (b.conflictingProposal = none)
      (.invalid "RoundState.checkSameTypeConflict; conflicting p set")
  | .preVote _ =>
    require (b.preVoteNil = none) (.invalid "RoundState.checkSameTypeConflict; conflicting pvn set")
    require (b.conflictingPreVote = none)
      (.invalid "RoundState.checkSameTypeConflict; conflicting pv set")
  | .preVoteNil _ =>
    require (b.preVote = none) (.invalid "RoundState.checkSameTypeConflict; pv and pvn")
  | .preCommit _ =>
    require (b.preVoteNil = none) (.invalid "RoundState.checkSameTypeConflict; pc and pvn")
    require (b.preCommitNil = none) (.invalid "RoundState.checkSameTypeConflict; pc and pcn")
    require (b.conflictingPreCommit = none)
      (.invalid "RoundState.checkSameTypeConflict; pc and conflicting pc set")
  | .preCommitNil _ =>
    require (b.preCommit = none)
      (.invalid "RoundState.checkSameTypeConflict; pc and pcn on nil side")
  | .nextRound _ => pure ()
  | .nextHeight _ =>
    require (b.conflictingNextHeight = none)
      (.invalid "RoundState.checkSameTypeConflict; nh conflicting set")

def checkTypeStale (b : RoundState) : Message → Except Fault Unit
  | .rCert _ => throw (.other "RoundState.checkTypeStale; bad type in check stale")
  | .proposal _ =>
    require (b.proposal = none) (.stale "RoundState.checkTypeStale; prop already set")
  | .preVote _ => require (b.preVote = none) (.stale "RoundState.checkTypeStale; pv already set")
  | .preVoteNil _ =>
    require (b.preVoteNil = none) (.stale "RoundState.checkTypeStale; pvn already set")
  | .preCommit _ =>
    require (b.preCommit = none) (.stale "RoundState.checkTypeStale; pc already set")
  | .preCommitNil _ =>
    require (b.preCommitNil = none) (.stale "RoundState.checkTypeStale; pcn already set")
  | .nextRound _ =>
    require (b.nextRound = none) (.stale "RoundState.checkTypeStale; nr already set")
  | .nextHeight _ =>
    require (b.nextHeight = none) (.stale "RoundState.checkTypeStale; nh already set")

section Checks

variable (crypto : Crypto)

/-- Two votes that both carry a block carry different ones. -/
def blockConflict (a : Message) (held : Option Message) : Except Fault Bool :=
  match a.extractBClaims, held.bind Message.extractBClaims with
  | some x, some y => do pure (!(← bClaimsEqual crypto x y))
  | _, _ => pure false

/-- The votes extend different blocks. -/
def prevConflict (a : Message) (held : Option Message) : Bool :=
  match held with
  | some v => a.extractRCert.rClaims.prevBlock != v.extractRCert.rClaims.prevBlock
  | none => false

def conflicts (b : RoundState) (a : Message) : Except Fault Bool := do
  if b.rCert.rClaims.prevBlock != a.extractRCert.rClaims.prevBlock then return true
  if ← blockConflict crypto a (b.proposal.map .proposal) then return true
  if ← blockConflict crypto a (b.preVote.map .preVote) then return true
  if prevConflict a (b.preVoteNil.map .preVoteNil) then return true
  if ← blockConflict crypto a (b.preCommit.map .preCommit) then return true
  if prevConflict a (b.preCommitNil.map .preCommitNil) then return true
  if prevConflict a (b.nextRound.map .nextRound) then return true
  blockConflict crypto a (b.nextHeight.map .nextHeight)

def checkConflict (a : Message) (internal : Bool) : Setter Bool := do
  if internal then
    modify (resetNHForDBR · a)
    lift (checkSameTypeConflict (← get) a)
  lift (conflicts crypto (← get) a)

def checkStaleAndConflict (a : Message) (internal : Bool) : Setter Bool := do
  if ← checkConflict crypto a internal then
    modify (setTypeConflict · a internal)
    return false
  if internal then lift (checkTypeStale (← get) a)
  return true

/-- The common end of the setters: check, then file. -/
def checkAndSet (v : Message) : Setter Bool := do
  let ok ← checkStaleAndConflict crypto v true
  if !ok then return false
  modify (setType · v)
  return true

def staleAgainst (b : RoundState) (v : Message) : Except Fault Unit :=
  match v with
  | .nextHeight nh =>
    match b.nextHeight with
    | some held =>
      if relateHR held.rCert.hr nh.rCert.hr == .lt then pure ()
      else throw (.stale "RoundState.genericSet; stale next height")
    | none => pure ()
  | _ => throw (.stale "RoundState.genericSet; relationHR == 1")

def genericSet (v : Message) : Setter Bool := do
  let b ← get
  match relateH b.hr v.hr with
  | .gt => throw (.stale "RoundState.genericSet; relationH == 1")
  | .lt =>
    modify (setReset · v)
    return true
  | .eq =>
    match relateHR b.hr v.hr with
    | .gt =>
      lift (staleAgainst b v)
      checkAndSet crypto v
    | .lt =>
      modify (setReset · v)
      return true
    | .eq => checkAndSet crypto v

def setVote (barred : Bool) (barText corruptText : String) (v : Message) : Setter Bool := do
  if isDeadBlockRound v.hr && barred then throw (.invalid barText)
  let ok ← genericSet crypto v
  if !ok && isDeadBlockRound v.hr then throw (.invalid corruptText)
  return ok

def setProposal (v : Proposal) : Setter Bool :=
  setVote crypto (v.txHshLst != []) "RoundState.SetProposal; tx hash in DBR set proposal"
    "RoundState.SetProposal; corrupt p in dbr" (.proposal v)

def setPreVote (v : PreVote) : Setter Bool :=
  setVote crypto (v.proposal.txHshLst != []) "RoundState.SetPreVote; tx hash in dbr set pv"
    "RoundState.SetPreVote; corrupt pv in dbr" (.preVote v)

def setPreVoteNil (v : PreVoteNil) : Setter Bool :=
  setVote crypto true "RoundState.SetPreVoteNil; dbr tx hash in set pvn"
    "RoundState.SetPreVoteNil; corrupt pvn in dbr" (.preVoteNil v)

def setPreCommit (v : PreCommit) : Setter Bool :=
  setVote crypto (v.proposal.txHshLst != []) "RoundState.SetPreCommit; dbr tx hash in set pc"
    "RoundState.SetPreCommit; corrupt pc in dbr" (.preCommit v)

def setPreCommitNil (v : PreCommitNil) : Setter Bool :=
  setVote crypto true "RoundState.SetPreCommitNil; dbr tx hash in pcn"
    "RoundState.SetPreCommitNil; corrupt pcn in dbr" (.preCommitNil v)

def setNextRound (v : NextRound) : Setter Bool :=
  setVote crypto true "RoundState.SetNextRound; nr in dbr"
    "RoundState.SetNextRound; corrupt nr in dbr" (.nextRound v)

def setNextHeight (v : NextHeight) : Setter Bool := do
  if isDeadBlockRound v.rCert.hr && v.nhClaims.proposal.txHshLst != [] then
    throw (.invalid "RoundState.SetNextHeight; set nh dbr tx hash")
  match relateH (← get).hr v.rCert.hr with
  | .gt => throw (.stale "RoundState.SetNextHeight; set nh relation == 1")
  | .lt =>
    modify (setReset · (.nextHeight v))
    return true
  | .eq => checkAndSet crypto (.nextHeight v)

def setRCert (v : RCert) : Setter Unit := modify (setReset · (.rCert v))

def set (v : Message) : Setter Bool :=
  match v with
  | .rCert v => do setRCert v; return true
  | .proposal v => setProposal crypto v
  | .preVote v => setPreVote crypto v
  | .preVoteNil v => setPreVoteNil crypto v
  | .preCommit v => setPreCommit crypto v
  | .preCommitNil v => setPreCommitNil crypto v
  | .nextRound v => setNextRound crypto v
  | .nextHeight v => setNextHeight crypto v

/-- The outcome of the check is dropped: only the marks it leaves count. -/
def trackExternalConflicts (b : RoundState) (v : Proposal) : RoundState :=
  if relateHR b.hr v.rCert.hr != .eq then b
  else
    match checkStaleAndConflict crypto (.proposal v) false b with
    | .ok _ b' => b'
    | .error _ b' => b'

end Checks

end RoundState

end AliceNet.Consensus
