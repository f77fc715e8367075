import AliceNet.Library.Outcome
import AliceNet.Library.Stateful

/-! The objects that validators exchange. Byte strings of a fixed length are the numbers they spell;
what a signature covers is the object itself; what `ValidateSignatures` fills in is its result. -/

namespace AliceNet.Consensus

abbrev Address := ℕ
abbrev Hash := ℕ
abbrev GroupKey := ℕ
abbrev GroupShare := ℕ
abbrev Signature := ℕ

def DEADBLOCKROUND : ℕ := 5
def DEADBLOCKROUNDNR : ℕ := DEADBLOCKROUND - 1
def EpochLength : ℕ := 1024

def epochOf (height : ℕ) : ℕ :=
  if height ≤ EpochLength then 1
  else if height % EpochLength = 0 then height / EpochLength
  else height / EpochLength + 1

/-- Errors, in the classes by which the code tells them apart. -/
inductive Fault
  | invalid (text : String)
  | stale (text : String)
  | missingTransactions
  | corrupt
  | keyNotFound
  | other (text : String)
  deriving Repr, DecidableEq

def Fault.tolerable : Fault → Bool
  | .missingTransactions => true
  | .invalid _ => true
  | _ => false

def Fault.isInvalid : Fault → Bool
  | .invalid _ => true
  | _ => false

def Fault.isStale : Fault → Bool
  | .stale _ => true
  | _ => false

structure RClaims where
  chainID : ℕ
  height : ℕ
  round : ℕ
  prevBlock : Hash
  deriving Repr, DecidableEq

structure RCert where
  sigGroup : Signature
  rClaims : RClaims
  deriving Repr, DecidableEq

structure BClaims where
  chainID : ℕ
  height : ℕ
  txCount : ℕ
  prevBlock : Hash
  txRoot : Hash
  stateRoot : Hash
  headerRoot : Hash
  deriving Repr, DecidableEq

structure PClaims where
  bClaims : BClaims
  rCert : RCert
  deriving Repr, DecidableEq

structure Proposal where
  pClaims : PClaims
  signature : Signature
  txHshLst : List Hash
  deriving Repr, DecidableEq

structure PreVote where
  proposal : Proposal
  signature : Signature
  deriving Repr, DecidableEq

structure PreVoteNil where
  rCert : RCert
  signature : Signature
  deriving Repr, DecidableEq

structure PreCommit where
  proposal : Proposal
  signature : Signature
  preVotes : List Signature
  deriving Repr, DecidableEq

structure PreCommitNil where
  rCert : RCert
  signature : Signature
  deriving Repr, DecidableEq

structure NRClaims where
  rCert : RCert
  rClaims : RClaims
  sigShare : Signature
  deriving Repr, DecidableEq

structure NextRound where
  nrClaims : NRClaims
  signature : Signature
  deriving Repr, DecidableEq

structure NHClaims where
  proposal : Proposal
  sigShare : Signature
  deriving Repr, DecidableEq

structure NextHeight where
  nhClaims : NHClaims
  signature : Signature
  preCommits : List Signature
  deriving Repr, DecidableEq

structure BlockHeader where
  bClaims : BClaims
  sigGroup : Signature
  txHshLst : List Hash
  deriving Repr, DecidableEq

structure Validator where
  vAddr : Address
  groupShare : GroupShare
  deriving Repr, DecidableEq

structure ValidatorSet where
  validators : List Validator
  groupKey : GroupKey
  notBefore : ℕ
  deriving Repr, DecidableEq

/-- What a validator's own key signs, each kind behind its own designator. -/
inductive Statement
  | proposal (claims : PClaims)
  | preVote (claims : PClaims)
  | preVoteNil (rCert : RCert)
  | preCommit (claims : PClaims)
  | preCommitNil (rCert : RCert)
  | nextRound (claims : NRClaims)
  | nextHeight (claims : PClaims)
  deriving Repr, DecidableEq

/-- What a share of the group key signs. -/
inductive GroupStatement
  | rClaims (claims : RClaims)
  | block (hash : Hash)
  deriving Repr, DecidableEq

/-- The cryptography that the node calls, with its own keys. -/
structure Crypto where
  /-- `Secp256k1Validator.Validate`, then `GetAccount`. -/
  recover : Statement → Signature → Except Fault Address
  /-- `BNGroupValidator.Validate`: the key that made the signature. -/
  bnValidate : GroupStatement → Signature → Except Fault GroupKey
  secpSign : Statement → Except Fault Signature
  /-- `BNGroupSigner.Sign` with the private key of the given share. -/
  bnSign : GroupShare → GroupStatement → Except Fault Signature
  /-- `BNGroupSigner.Aggregate` for the given group key. -/
  aggregate : GroupKey → List Signature → List GroupShare → Except Fault Signature
  hashBClaims : BClaims → Hash
  hashAddress : Address → Hash
  makeTxRoot : List Hash → Except Fault Hash

/-- Height and round, ordered by height first. -/
structure HR where
  height : ℕ
  round : ℕ
  deriving Repr, DecidableEq

def relateH (a b : HR) : Ordering := compare a.height b.height
def relateHR (a b : HR) : Ordering := (compare a.height b.height).then (compare a.round b.round)

def RClaims.hr (claims : RClaims) : HR := ⟨claims.height, claims.round⟩
def RCert.hr (cert : RCert) : HR := cert.rClaims.hr
def Proposal.rCert (p : Proposal) : RCert := p.pClaims.rCert
def NextRound.rCert (v : NextRound) : RCert := v.nrClaims.rCert
def NextHeight.rCert (v : NextHeight) : RCert := v.nhClaims.proposal.rCert

inductive Message
  | rCert (v : RCert)
  | proposal (v : Proposal)
  | preVote (v : PreVote)
  | preVoteNil (v : PreVoteNil)
  | preCommit (v : PreCommit)
  | preCommitNil (v : PreCommitNil)
  | nextRound (v : NextRound)
  | nextHeight (v : NextHeight)
  deriving Repr, DecidableEq

def Message.extractRCert : Message → RCert
  | .rCert v => v
  | .proposal v => v.rCert
  | .preVote v => v.proposal.rCert
  | .preVoteNil v => v.rCert
  | .preCommit v => v.proposal.rCert
  | .preCommitNil v => v.rCert
  | .nextRound v => v.rCert
  | .nextHeight v => v.rCert

def Message.hr (v : Message) : HR := v.extractRCert.hr

def Message.extractBClaims : Message → Option BClaims
  | .proposal v => some v.pClaims.bClaims
  | .preVote v => some v.proposal.pClaims.bClaims
  | .preCommit v => some v.proposal.pClaims.bClaims
  | .nextHeight v => some v.nhClaims.proposal.pClaims.bClaims
  | _ => none

def isDeadBlockRound (hr : HR) : Bool := hr.round == DEADBLOCKROUND

open Outcome (require)

/-! ### Decoding

Each check is the one that `UnmarshalCapn` makes; lengths are fixed by the types. -/

def RClaims.unmarshalCapn (b : RClaims) : Except Fault Unit := do
  require (1 ≤ b.height) (.invalid "RClaims.UnmarshalCapn; height is zero")
  require (1 ≤ b.round) (.invalid "RClaims.UnmarshalCapn; round is zero")
  require (1 ≤ b.chainID) (.invalid "RClaims.UnmarshalCapn; chainID is zero")
  require (b.round ≤ DEADBLOCKROUND) (.invalid "RClaims.UnmarshalCapn; round > DBR")

def RClaims.marshalBinary (b : RClaims) : Except Fault Unit := do
  require (b.chainID ≠ 0) (.invalid "RClaims.MarshalBinary; chainID is zero")
  require (b.round ≠ 0) (.invalid "RClaims.MarshalBinary; round is zero")
  require (b.round ≤ DEADBLOCKROUND) (.invalid "RClaims.MarshalBinary; round > DBR")
  require (b.height ≠ 0) (.invalid "RClaims.MarshalBinary; height is zero")

def RCert.unmarshalCapn (b : RCert) : Except Fault Unit := b.rClaims.unmarshalCapn

def BClaims.unmarshalCapn (b : BClaims) : Except Fault Unit := do
  require (1 ≤ b.height) (.invalid "BClaims.UnmarshalCapn; height is zero")
  require (1 ≤ b.chainID) (.invalid "BClaims.UnmarshalCapn; chainID is zero")

def PClaims.unmarshalCapn (b : PClaims) : Except Fault Unit := do
  b.rCert.unmarshalCapn
  b.bClaims.unmarshalCapn
  require (b.rCert.rClaims.chainID = b.bClaims.chainID)
    (.invalid "PClaims.UnmarshalCapn; pclaims chainID != chainID")
  require (b.rCert.rClaims.height = b.bClaims.height)
    (.invalid "PClaims.UnmarshalCapn; pclaims height != height")
  require (b.rCert.rClaims.prevBlock = b.bClaims.prevBlock)
    (.invalid "PClaims.UnmarshalCapn; pclaims prevBlock != prevBlock")

def Proposal.unmarshalCapn (b : Proposal) : Except Fault Unit := do
  b.pClaims.unmarshalCapn
  require (b.rCert.rClaims.round = DEADBLOCKROUND → b.txHshLst = [])
    (.invalid "Proposal.UnmarshalCapn; nonempty TxHshLst in DeadBlockRound")

def NRClaims.unmarshalCapn (b : NRClaims) : Except Fault Unit := do
  b.rCert.unmarshalCapn
  b.rClaims.unmarshalCapn
  require (b.rCert.rClaims.height = b.rClaims.height)
    (.invalid "NRClaims.UnmarshalCapn; nrclaims height mismatch")
  require (b.rCert.rClaims.round + 1 = b.rClaims.round)
    (.invalid "NRClaims.UnmarshalCapn; nrclaims round not plus 1")
  require (b.rCert.rClaims.chainID = b.rClaims.chainID)
    (.invalid "NRClaims.UnmarshalCapn; nrclaims chainID != chainID")
  require (b.rCert.rClaims.prevBlock = b.rClaims.prevBlock)
    (.invalid "NRClaims.UnmarshalCapn; nrclaims prevBlock != prevBlock")

def BlockHeader.unmarshalCapn (b : BlockHeader) : Except Fault Unit := do
  b.bClaims.unmarshalCapn
  require (b.txHshLst.length = b.bClaims.txCount)
    (.invalid "BlockHeader.UnmarshalCapn; incorrect txHshLst length")

def Message.unmarshalCapn : Message → Except Fault Unit
  | .rCert v => v.unmarshalCapn
  | .proposal v => v.unmarshalCapn
  | .preVote v => v.proposal.unmarshalCapn
  | .preVoteNil v => v.rCert.unmarshalCapn
  | .preCommit v => v.proposal.unmarshalCapn
  | .preCommitNil v => v.rCert.unmarshalCapn
  | .nextRound v => v.nrClaims.unmarshalCapn
  | .nextHeight v => v.nhClaims.proposal.unmarshalCapn

section Signatures

variable (crypto : Crypto)

def BClaims.blockHash (b : BClaims) : Except Fault Hash := do
  require (b.chainID ≠ 0) (.invalid "BClaims.MarshalBinary; chainID is zero")
  require (b.height ≠ 0) (.invalid "BClaims.MarshalBinary; height is zero")
  pure (crypto.hashBClaims b)

def bClaimsEqual (a b : BClaims) : Except Fault Bool := do
  let ahsh ← a.blockHash crypto
  let bhsh ← b.blockHash crypto
  pure (ahsh == bhsh)

def RCert.validateSignature (b : RCert) : Except Fault GroupKey := do
  require (b.rClaims.height ≠ 0) (.invalid "RCert.ValidateSignatures; height is zero")
  require (b.rClaims.chainID ≠ 0) (.invalid "RCert.ValidateSignatures; chainID is zero")
  require (b.rClaims.round ≠ 0) (.invalid "RCert.ValidateSignatures; round is zero")
  require (b.rClaims.round ≤ DEADBLOCKROUND)
    (.invalid "RCert.ValidateSignatures; round > DeadBlockRound")
  if b.rClaims.height = 1 ∧ b.rClaims.round = 1 then pure 0
  else if b.rClaims.height = 1 then
    throw (.invalid "RCert.ValidateSignatures; RCert should not exist!")
  else if b.rClaims.height = 2 ∧ b.rClaims.round = 1 then pure 0
  else if 1 < b.rClaims.round then
    b.rClaims.marshalBinary
    crypto.bnValidate (.rClaims b.rClaims) b.sigGroup
  else crypto.bnValidate (.block b.rClaims.prevBlock) b.sigGroup

/-- What `ValidateSignatures` learns about an object. -/
structure Origin where
  voter : Option Address
  proposer : Option Address
  groupKey : GroupKey
  groupShare : GroupShare
  signers : List Address
  deriving Repr, DecidableEq

def Proposal.validateSignatures (b : Proposal) : Except Fault Origin := do
  let txRoot ← crypto.makeTxRoot b.txHshLst
  require (txRoot = b.pClaims.bClaims.txRoot)
    (.invalid "Proposal.ValidateSignatures; Proposal TxRoot mismatch")
  let groupKey ← b.rCert.validateSignature crypto
  require (b.rCert.rClaims.round ≤ DEADBLOCKROUND)
    (.invalid "Proposal.ValidateSignatures; Proposal.RCert.Round > DBR")
  let proposer ← crypto.recover (.proposal b.pClaims) b.signature
  pure ⟨none, some proposer, groupKey, 0, []⟩

def PreVote.validateSignatures (b : PreVote) : Except Fault Origin := do
  let origin ← b.proposal.validateSignatures crypto
  let voter ← crypto.recover (.preVote b.proposal.pClaims) b.signature
  pure { origin with voter := some voter }

def PreVoteNil.validateSignatures (b : PreVoteNil) : Except Fault Origin := do
  let groupKey ← b.rCert.validateSignature crypto
  let voter ← crypto.recover (.preVoteNil b.rCert) b.signature
  pure ⟨some voter, none, groupKey, 0, []⟩

def PreCommit.validateSignatures (b : PreCommit) : Except Fault Origin := do
  let origin ← b.proposal.validateSignatures crypto
  let voter ← crypto.recover (.preCommit b.proposal.pClaims) b.signature
  let signers ← b.preVotes.mapM (crypto.recover (.preVote b.proposal.pClaims))
  pure { origin with voter := some voter, signers := signers }

def PreCommitNil.validateSignatures (b : PreCommitNil) : Except Fault Origin := do
  let groupKey ← b.rCert.validateSignature crypto
  let voter ← crypto.recover (.preCommitNil b.rCert) b.signature
  pure ⟨some voter, none, groupKey, 0, []⟩

def NextRound.validateSignatures (b : NextRound) : Except Fault Origin := do
  let groupKey ← b.rCert.validateSignature crypto
  b.nrClaims.rClaims.marshalBinary
  let groupShare ← crypto.bnValidate (.rClaims b.nrClaims.rClaims) b.nrClaims.sigShare
  let voter ← crypto.recover (.nextRound b.nrClaims) b.signature
  pure ⟨some voter, none, groupKey, groupShare, []⟩

def NextHeight.validateSignatures (b : NextHeight) : Except Fault Origin := do
  let origin ← b.nhClaims.proposal.validateSignatures crypto
  let hash ← b.nhClaims.proposal.pClaims.bClaims.blockHash crypto
  let groupShare ← crypto.bnValidate (.block hash) b.nhClaims.sigShare
  let voter ← crypto.recover (.nextHeight b.nhClaims.proposal.pClaims) b.signature
  let signers ← b.preCommits.mapM (crypto.recover (.preCommit b.nhClaims.proposal.pClaims))
  pure { origin with voter := some voter, groupShare := groupShare, signers := signers }

def BlockHeader.validateSignatures (b : BlockHeader) : Except Fault GroupKey := do
  let txRoot ← crypto.makeTxRoot b.txHshLst
  require (txRoot = b.bClaims.txRoot)
    (.invalid "BlockHeader.ValidateSignatures; bclaims TxRoot mismatch")
  let bhsh ← b.bClaims.blockHash crypto
  if 1 < b.bClaims.height then crypto.bnValidate (.block bhsh) b.sigGroup else pure 0

/-- The certificate of the first round after a block. -/
def BlockHeader.getRCert (b : BlockHeader) : Except Fault RCert := do
  let bhsh ← b.bClaims.blockHash crypto
  pure ⟨b.sigGroup, ⟨b.bClaims.chainID, b.bClaims.height + 1, 1, bhsh⟩⟩

def Message.validateSignatures : Message → Except Fault Origin
  | .rCert v => do
    let groupKey ← v.validateSignature crypto
    pure ⟨none, none, groupKey, 0, []⟩
  | .proposal v => v.validateSignatures crypto
  | .preVote v => v.validateSignatures crypto
  | .preVoteNil v => v.validateSignatures crypto
  | .preCommit v => v.validateSignatures crypto
  | .preCommitNil v => v.validateSignatures crypto
  | .nextRound v => v.validateSignatures crypto
  | .nextHeight v => v.validateSignatures crypto

end Signatures

def calcThreshold (n : ℕ) : ℕ :=
  let k := n / 3
  if n - 3 * k = 2 then 2 * k + 1 else 2 * k

/-- `GetProposerIdx`: sums of `uint32`, index of type `uint8`. -/
def getProposerIdx (numv height round : ℕ) : ℕ :=
    (height + round + 2 ^ 32 - 1) % 2 ^ 32 % numv % 2 ^ 8

def ValidatorSet.addresses (vs : ValidatorSet) : List Address := vs.validators.map Validator.vAddr

def ValidatorSet.vAddrIdx (vs : ValidatorSet) (vAddr : Address) : Option ℕ :=
  (vs.validators.zipIdx.reverse.find? fun entry => entry.1.vAddr == vAddr).map Prod.snd

def ValidatorSet.groupShareIdx (vs : ValidatorSet) (groupShare : GroupShare) : Option ℕ :=
  (vs.validators.zipIdx.reverse.find? fun entry => entry.1.groupShare == groupShare).map Prod.snd

def ValidatorSet.isValidTuple (vs : ValidatorSet) (vAddr : Address) (groupKey : GroupKey) : Bool :=
  groupKey == vs.groupKey && vs.addresses.contains vAddr

def ValidatorSet.isValidTriplet (vs : ValidatorSet) (vAddr : Address) (groupShare : GroupShare)
    (groupKey : GroupKey) : Bool :=
  groupKey == vs.groupKey && (vs.vAddrIdx vAddr).isSome && vs.groupShareIdx groupShare ==
    vs.vAddrIdx vAddr

end AliceNet.Consensus
