import AliceNet.Crypto.Dkg
import AliceNet.Bridge.Ethdkg
import AliceNet.Consensus.Objects

/-! What a node computes in the rounds of the key generation. -/

namespace AliceNet.Layer1.Dkg

open Outcome
open Crypto (Curve Order Point Twist)
open Crypto.Cloudflare
open Bridge.Ethdkg (Address)

inductive Failure
  | cloudflare (failure : Crypto.Cloudflare.Failure)
  /-- failed to generate secret shares -/
  | secretShares (failure : Crypto.Cloudflare.Failure)
  /-- failed to generate encrypted shares -/
  | encryptedShares (failure : Crypto.Cloudflare.Failure)
  /-- key shares not a valid pair -/
  | invalidKeyShares
  /-- len(keyShare1s) != len(keyshare2s) -/
  | mismatchedKeyShares
  /-- invalid pairing for master public key -/
  | invalidMasterPublicKey
  /-- invalid index: require index > 0 -/
  | invalidIndex
  /-- invalid privateCoefficients array: require length == threshold+1 -/
  | invalidPrivateCoefficients (length : ℕ)
  /-- invalid encryptedShares array: require length == len(Participants) -/
  | invalidEncryptedShares (length : ℕ)
  /-- error converting public key to g1 -/
  | publicKey (failure : Crypto.Cloudflare.Failure)
  /-- error condensing commitments -/
  | condensing (failure : Crypto.Cloudflare.Failure)
  /-- error generating decrypted shares -/
  | decryptedShares (failure : Crypto.Cloudflare.Failure)
  /-- invalid participants; not enough validators -/
  | notEnoughValidators
  /-- invalid commitments: incorrect length -/
  | commitmentsLength
  /-- invalid encryptedShares: incorrect length -/
  | encryptedSharesLength
  /-- invalid commitment: failed conversion -/
  | invalidCommitment
  /-- mismatched public keys, participants, commitments -/
  | mismatched (publicKeys participants commitments : ℕ)
  /-- invalid commitments: required; actual -/
  | invalidCommitments (required actual : ℕ)
  /-- error converting BigIntArray to G2 -/
  | groupPublicKey (failure : Crypto.Cloudflare.Failure)
  /-- error converting BigIntArray to G1 -/
  | commitment (failure : Crypto.Cloudflare.Failure)
  | panic
  deriving DecidableEq, Repr

/-- What a node knows of a participant of the round -/
structure Participant where
  address : Address
  index : ℕ
  publicKey : Point
  commitments : List Point := []
  encryptedShares : List ℕ := []
  deriving DecidableEq, Repr

def thresholdForUserCount (n : ℕ) : ℕ := Consensus.calcThreshold n

section

variable (curve : Curve)

def publicKeyG1s (participants : List Participant) :
    Except Crypto.Cloudflare.Failure (List curve.G1) :=
  participants.mapM fun participant => bigIntArrayToG1 curve participant.publicKey

def generateShares (transportPrivateKey : ℕ) (participants : List Participant) (random : ℕ → ℕ) :
    Except Failure (List ℕ × List ℕ × List Point) := do
  let threshold := thresholdForUserCount participants.length
  let privateCoefficients ← (constructPrivatePolyCoefs random threshold).mapError .cloudflare
  let commitments := (generatePublicCoefs curve privateCoefficients).map curve.marshalG1
  let transportPublicKeyG1 := (transportPrivateKey : ZMod Order) • curve.g1
  let publicKeyG1s ← (publicKeyG1s curve participants).mapError .cloudflare
  let secretsArray ← (generateSecretShares curve transportPublicKeyG1 privateCoefficients
    publicKeyG1s).mapError .secretShares
  let encryptedShares ← (generateEncryptedShares curve secretsArray transportPrivateKey
    publicKeyG1s).mapError .encryptedShares
  pure (encryptedShares, privateCoefficients, commitments)

def hashToG1 (msg : Bytes) : Except Failure curve.G1 :=
  match curve.hashToG1 msg with
  | some hash => .ok hash
  | none => .error (.cloudflare .ErrDangerousPoint)

def generateKeyShare (secretValue w : ℕ) : Except Failure (Point × (ℕ × ℕ) × Twist) := do
  let h1Base ← hashToG1 curve Crypto.h1BaseMessage
  let keyShareG1 := (secretValue : ZMod Order) • h1Base
  let keyShareG2 := (secretValue : ZMod Order) • curve.g2
  require (pairingCheck keyShareG1 (-curve.g2) h1Base keyShareG2 = true) .invalidKeyShares
  let g1Value := (secretValue : ZMod Order) • curve.g1
  let proof ← (generateDLEQProofG1 curve h1Base keyShareG1 curve.g1 g1Value secretValue w).mapError
    .cloudflare
  (verifyDLEQProofG1 curve h1Base keyShareG1 curve.g1 g1Value proof).mapError .cloudflare
  pure (curve.marshalG1 keyShareG1, proof, curve.marshalG2 keyShareG2)

/-- The loop over the key shares, with the sums so far -/
def addKeyShares : List (Point × Twist) → curve.G1 → curve.G2 →
    Except Crypto.Cloudflare.Failure (curve.G1 × curve.G2)
  | [], masterPublicKeyG1, masterPublicKeyG2 => pure (masterPublicKeyG1, masterPublicKeyG2)
  | (keyShare1, keyShare2) :: rest, masterPublicKeyG1, masterPublicKeyG2 => do
    let keySharedG1 ← bigIntArrayToG1 curve keyShare1
    let keySharedG2 ← bigIntArrayToG2 curve keyShare2
    addKeyShares rest (masterPublicKeyG1 + keySharedG1) (masterPublicKeyG2 + keySharedG2)

def generateMasterPublicKey (keyShare1s : List Point) (keyShare2s : List Twist) :
    Except Failure Twist := do
  require (keyShare1s.length = keyShare2s.length) .mismatchedKeyShares
  let h1Base ← hashToG1 curve Crypto.h1BaseMessage
  let (masterPublicKeyG1, masterPublicKeyG2) ← (addKeyShares curve (keyShare1s.zip keyShare2s) 0
    0).mapError .cloudflare
  require (pairingCheck masterPublicKeyG1 (-curve.g2) h1Base masterPublicKeyG2 = true)
    .invalidMasterPublicKey
  pure (curve.marshalG2 masterPublicKeyG2)

/-- The secret of the group's participant and its public key -/
def generateGroupKeys (transportPrivateKey : ℕ) (privateCoefficients : List ℕ)
    (encryptedShares : List (List ℕ)) (index : ℕ) (participants : List Participant) :
    Except Failure (ℕ × Twist) := do
  let n := participants.length
  let threshold := thresholdForUserCount n
  require (0 < index) .invalidIndex
  require (privateCoefficients.length = threshold + 1)
    (.invalidPrivateCoefficients privateCoefficients.length)
  require (encryptedShares.length = n) (.invalidEncryptedShares encryptedShares.length)
  let publicKeyG1s ← (publicKeyG1s curve participants).mapError .publicKey
  let transportPublicKeyG1 := (transportPrivateKey : ZMod Order) • curve.g1
  let sharedEncrypted ← (condenseCommitments curve transportPublicKeyG1 encryptedShares
    publicKeyG1s).mapError .condensing
  let sharedSecrets ← (generateDecryptedShares curve transportPrivateKey sharedEncrypted
    publicKeyG1s).mapError .decryptedShares
  let own ← (privatePolyEval privateCoefficients index).mapError .cloudflare
  let gskj := (own + sharedSecrets.sum) % Order
  pure (gskj, curve.marshalG2 ((gskj : ZMod Order) • curve.g2))

end

/-- What a node needs of its state to check distributed shares -/
structure DkgState where
  index : ℕ
  numberOfValidators : ℕ
  transportPrivateKey : ℕ
  participants : Address → Option Participant

inductive Verdict
  | good
  | bad
  | missing
  deriving DecidableEq, Repr

structure Categories where
  good : List Participant := []
  bad : List Participant := []
  missing : List Participant := []
  deriving DecidableEq, Repr

def Categories.add (categories : Categories) (participant : Participant) : Verdict → Categories
  | .good => { categories with good := participant :: categories.good }
  | .bad => { categories with bad := participant :: categories.bad }
  | .missing => { categories with missing := participant :: categories.missing }

section

variable (curve : Curve)

/-- Whether the shares are valid and whether they are present -/
def verifyDistributedShares (dkgState : DkgState) (participant : Participant) :
    Except Failure (Bool × Bool) :=
  if dkgState.index = participant.index then pure (true, true)
  else do
    let n := dkgState.numberOfValidators
    require (4 ≤ n) .notEnoughValidators
    let threshold := thresholdForUserCount n
    match dkgState.participants participant.address with
    | none => .error .panic
    | some stored =>
      require (stored.commitments.length = threshold + 1) .commitmentsLength
      require (stored.encryptedShares.length = n - 1) .encryptedSharesLength
      let publicCoefficients ← (stored.commitments.mapM (bigIntArrayToG1 curve)).mapError fun _ =>
        .invalidCommitment
      let publicKeyG1 ← (bigIntArrayToG1 curve participant.publicKey).mapError .cloudflare
      let skipped := if participant.index < dkgState.index then 2 else 1
      require (skipped ≤ dkgState.index) .panic
      let encryptedSecret ← (arrayAt stored.encryptedShares (dkgState.index - skipped)).mapError
        .cloudflare
      let secret := decrypt curve encryptedSecret dkgState.transportPrivateKey publicKeyG1
        dkgState.index
      let valid ← (compareSharedSecret curve secret dkgState.index publicCoefficients).mapError
        .cloudflare
      pure (valid, true)

/-- The sum of all participants' commitments for one degree -/
def sumCommitments (commitments : List (List Point)) (polyDegreeIdx : ℕ) :
    Except Failure curve.G1 :=
  commitments.foldlM (fun tmp1 row => do
    let words ← (arrayAt row polyDegreeIdx).mapError .cloudflare
    let tmp2 ← (bigIntArrayToG1 curve words).mapError .commitment
    pure (tmp1 + tmp2)) 0

/-- The commitments of the group at an index -/
def gpkjStar (commitments : List (List Point)) (threshold j : ℕ) : Except Failure curve.G1 :=
  (List.range (threshold + 1)).foldlM (fun tmp0 polyDegreeIdx => do
    let tmp1 ← sumCommitments curve commitments polyDegreeIdx
    pure (tmp0 + ((j ^ polyDegreeIdx % Order : ℕ) : ZMod Order) • tmp1)) 0

def categorize (commitments : List (List Point)) (threshold : ℕ) (publishedPublicKey : Twist)
    (participant : Participant) : Except Failure Verdict :=
  if publishedPublicKey = (0, 0, 0, 0) then pure .missing
  else do
    let gpkj ← (bigIntArrayToG2 curve publishedPublicKey).mapError .groupPublicKey
    let star ← gpkjStar curve commitments threshold participant.index
    pure (if pairingCheck star (-curve.g2) curve.g1 gpkj then .good else .bad)

def categorizeAll (commitments : List (List Point)) (threshold : ℕ) :
    List (Twist × Participant) → Except Failure Categories
  | [] => pure {}
  | (publishedPublicKey, participant) :: rest => do
    let verdict ← categorize curve commitments threshold publishedPublicKey participant
    let categories ← categorizeAll commitments threshold rest
    pure (categories.add participant verdict)

def categorizeGroupSigners (publishedPublicKeys : List Twist) (participants : List Participant)
    (commitments : List (List Point)) : Except Failure Categories := do
  let n := participants.length
  let threshold := thresholdForUserCount n
  require (n = publishedPublicKeys.length ∧ n = commitments.length)
    (.mismatched publishedPublicKeys.length n commitments.length)
  commitments.forM fun row =>
    require (row.length = threshold + 1) (.invalidCommitments (threshold + 1) row.length)
  categorizeAll curve commitments threshold (publishedPublicKeys.zip participants)

end

end AliceNet.Layer1.Dkg
