import AliceNet.Library.SecretSharing
import AliceNet.Bridge.CryptoLibrary

/-! The distributed key generation of the nodes. Points are elements of the groups; no pointer is
nil. -/

namespace AliceNet.Crypto.Cloudflare

open Outcome
open CryptoLibrary (encodeWords encodePoints)

inductive Failure
  | ErrInvalidThreshold
  | ErrMissingIndex
  | ErrArrayMismatch
  | ErrInvalid
  | ErrLIArrayMismatch
  | ErrMismatchedSlices
  | ErrBelowThreshold
  | ErrDLEQInvalidProof
  | ErrDangerousPoint
  | ErrMalformedPoint
  /-- An index is out of range. -/
  | panic
  deriving DecidableEq, Repr

def arrayAt {α : Type} (items : List α) (i : ℕ) : Except Failure α :=
  match items[i]? with
  | some item => .ok item
  | none => .error .panic

def addTerms (j : ℕ) : List ℕ → (bigJPower res : ℕ) → ℕ
  | [], _, res => res
  | c :: rest, bigJPower, res =>
    addTerms j rest (bigJPower * j) ((res + c * (bigJPower * j) % Order) % Order)

/-- The coefficients come from a source of random numbers. -/
def constructPrivatePolyCoefs (random : ℕ → ℕ) (threshold : ℕ) : Except Failure (List ℕ) := do
  require (2 ≤ threshold) .ErrInvalidThreshold
  pure ((List.range (threshold + 1)).map random)

def privatePolyEval (privCoefs : List ℕ) (j : ℕ) : Except Failure ℕ :=
  match privCoefs with
  | [] => .error .panic
  | c :: rest => .ok (addTerms j rest 1 (c % Order))

section

variable (curve : Curve)

def generatePublicCoefs (privCoefs : List ℕ) : List curve.G1 := privCoefs.map fun c : ℕ =>
    (c : ZMod Order) • curve.g1

/-- The loop over all public coefficients but the first -/
def addCommitments {curve : Curve} (j : ℕ) : List curve.G1 → (k : ℕ) → curve.G1 → curve.G1
  | [], _, res => res
  | P :: rest, k, res =>
    addCommitments j rest (k + 1) (res + ((j ^ k % Order : ℕ) : ZMod Order) • P)

def compareSharedSecret (secret j : ℕ) (pubCoefs : List curve.G1) : Except Failure Bool := do
  require (0 < j) .ErrInvalid
  match pubCoefs with
  | [] => .error .panic
  | P :: rest => .ok (decide ((secret : ZMod Order) • curve.g1 = addCommitments j rest 1 P))

def bigIntArrayToG1 (words : Point) : Except Failure curve.G1 :=
  if words.1 = 0 then .ok 0
  else
    match curve.unmarshalG1 words with
    | some P => .ok P
    | none => .error .ErrMalformedPoint

def bigIntArrayToG2 (words : Twist) : Except Failure curve.G2 :=
  if words.1 = 0 then .ok 0
  else
    match curve.unmarshalG2 words with
    | some Q => .ok Q
    | none => .error .ErrMalformedPoint

def oneTimePad (sharedSecret : curve.G1) (participantIndex : ℕ) : ℕ :=
  (curve.keccak256 (encodeWords [(curve.marshalG1 sharedSecret).1,
    participantIndex % 2 ^ 64])).toNat

def encrypt (secretValue privK : ℕ) (pubK : curve.G1) (participantIndex : ℕ) : ℕ :=
  oneTimePad curve ((privK : ZMod Order) • pubK) participantIndex ^^^ secretValue

def decrypt (encryptedValue privK : ℕ) (pubK : curve.G1) (participantIndex : ℕ) : ℕ :=
  oneTimePad curve ((privK : ZMod Order) • pubK) participantIndex ^^^ encryptedValue

/-- The proof for a random number `w` -/
def generateDLEQProofG1 (x1 y1 x2 y2 : curve.G1) (alpha w : ℕ) : Except Failure (ℕ × ℕ) := do
  require (w ≠ 0) .panic
  let t1 := (w : ZMod Order) • x1
  let t2 := (w : ZMod Order) • x2
  let c := (curve.keccak256 (encodePoints ([x1, y1, x2, y2, t1, t2].map curve.marshalG1))).toNat
  pure (c, ((w - alpha * c : ℤ) % Order).toNat)

def verifyDLEQProofG1 (x1 y1 x2 y2 : curve.G1) (proof : ℕ × ℕ) : Except Failure Unit := do
  let t1Prime := (proof.2 : ZMod Order) • x1 + (proof.1 : ZMod Order) • y1
  let t2Prime := (proof.2 : ZMod Order) • x2 + (proof.1 : ZMod Order) • y2
  let cPrime :=
    (curve.keccak256 (encodePoints ([x1, y1, x2, y2, t1Prime, t2Prime].map curve.marshalG1))).toNat
  require (cPrime = proof.1) .ErrDLEQInvalidProof

def findPubKIndex {curve : Curve} (pubK : curve.G1) (pubKs : List curve.G1) : Except Failure ℕ :=
  match pubKs.idxOf? pubK with
  | some userIndex => .ok userIndex
  | none => .error .ErrMissingIndex

/-- What the loops that leave out the user go over, with the positions -/
def others {α : Type} (userIndex : ℕ) (items : List α) : List (α × ℕ) :=
  items.zipIdx.filter fun entry => entry.2 ≠ userIndex

def generateSecretShares (pubK : curve.G1) (privCoefs : List ℕ) (pubKs : List curve.G1) :
    Except Failure (List ℕ) := do
  require (pubKs ≠ []) .panic
  let userIndex ← findPubKIndex pubK pubKs
  (others userIndex pubKs).mapM fun entry => privatePolyEval privCoefs (entry.2 + 1)

def generateEncryptedShares (secretsArray : List ℕ) (privK : ℕ) (pubKs : List curve.G1) :
    Except Failure (List ℕ) := do
  require (pubKs ≠ []) .panic
  let userIndex ← findPubKIndex ((privK : ZMod Order) • curve.g1) pubKs
  require ((others userIndex pubKs).length ≤ secretsArray.length) .panic
  pure (List.zipWith (fun entry secretValue =>
    encrypt curve secretValue privK entry.1 (entry.2 + 1))
    (others userIndex pubKs) secretsArray)

def condenseCommitments (pubK : curve.G1) (combinedCommitments : List (List ℕ))
    (pubKs : List curve.G1) : Except Failure (List ℕ) := do
  let n := pubKs.length
  let userIndex ← findPubKIndex pubK pubKs
  require (combinedCommitments.length = n) .ErrArrayMismatch
  (others userIndex combinedCommitments).mapM fun entry => do
    require (entry.1.length = n - 1) .ErrArrayMismatch
    arrayAt entry.1 (if userIndex < entry.2 then userIndex else userIndex - 1)

def generateDecryptedShares (privK : ℕ) (encryptedArray : List ℕ) (pubKs : List curve.G1) :
    Except Failure (List ℕ) := do
  require (encryptedArray.length + 1 = pubKs.length) .ErrArrayMismatch
  let userIndex ← findPubKIndex ((privK : ZMod Order) • curve.g1) pubKs
  pure (List.zipWith (fun entry encryptedValue =>
    decrypt curve encryptedValue privK entry.1 (userIndex + 1))
    (others userIndex pubKs) encryptedArray)

def sign (msg : Bytes) (privK : ℕ) : Except Failure curve.G1 :=
  match curve.hashToG1 msg with
  | some hash => .ok ((privK : ZMod Order) • hash)
  | none => .error .ErrDangerousPoint

def verify (msg : Bytes) (sig : curve.G1) (pubK : curve.G2) : Bool :=
  match curve.hashToG1 msg with
  | some hash => pairingCheck sig (-curve.g2) hash pubK
  | none => false

end

/-- A number without an inverse is left as it is. -/
def modInverse (g : ℤ) : ℤ := if Int.gcd g Order = 1 then ((g : ZMod Order)⁻¹).val else g

def liRjPartialConst (k j : ℕ) : ℕ := ((k : ℤ) * modInverse (k - j) % Order).toNat

/-- The constant of one index among those that are taken into account -/
def liRj (taken : List ℕ) (idxJ : ℕ) : ℕ :=
  taken.foldl (fun Rj idxK => if idxJ = idxK then Rj else Rj * liRjPartialConst idxK idxJ % Order) 1

section

variable {curve : Curve}

def lagrangeInterpolationG1 (pointsG1 : List curve.G1) (indices : List ℕ) (threshold : ℕ) :
    Except Failure curve.G1 := do
  require (pointsG1.length = indices.length) .ErrLIArrayMismatch
  -- nothing beyond the threshold is looked at
  let taken := indices.take (threshold + 1)
  pure ((taken.zip pointsG1).foldl (fun val entry =>
    val + (liRj taken entry.1 : ZMod Order) • entry.2) 0)

def aggregateSignatures (sigs : List curve.G1) (indices : List ℕ) (threshold : ℕ) :
    Except Failure curve.G1 := do
  require (sigs.length = indices.length) .ErrMismatchedSlices
  require (threshold < sigs.length) .ErrBelowThreshold
  lagrangeInterpolationG1 sigs indices threshold

end

end AliceNet.Crypto.Cloudflare
