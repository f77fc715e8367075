import AliceNet.Library.Outcome
import AliceNet.Crypto.Bn256

/-! The curve arithmetic of the contracts, over the precompiled contracts. -/

namespace AliceNet.Crypto.CryptoLibrary

inductive CryptoLibraryErrors
  | EllipticCurveAdditionFailed
  | EllipticCurveMultiplicationFailed
  | EllipticCurvePairingFailed
  deriving DecidableEq, Repr

def encodeWords (words : List ℕ) : Bytes := words.flatMap (Bytes.bigEndian 32)

def encodePoints (points : List Point) : Bytes :=
    encodeWords (points.flatMap fun point => [point.1, point.2])

def mulmod (a b m : ℕ) : ℕ := a * b % m
def addmod (a b m : ℕ) : ℕ := (a + b) % m

/-- The coordinates are not compared with the field's modulus. -/
def bn128IsOnCurve (point : Point) : Bool :=
  mulmod point.2 point.2 FIELD_MODULUS ==
    addmod (mulmod point.1 (mulmod point.1 point.1 FIELD_MODULUS) FIELD_MODULUS) 3 FIELD_MODULUS

variable (curve : Curve)

def bn128Add (p q : Point) : Except CryptoLibraryErrors Point :=
  match curve.unmarshalG1 p, curve.unmarshalG1 q with
  | some P, some Q => .ok (curve.marshalG1 (P + Q))
  | _, _ => .error .EllipticCurveAdditionFailed

def bn128Multiply (p : Point) (scalar : ℕ) : Except CryptoLibraryErrors Point :=
  match curve.unmarshalG1 p with
  | some P => .ok (curve.marshalG1 ((scalar : ZMod Order) • P))
  | none => .error .EllipticCurveMultiplicationFailed

def bn128CheckPairing (p : Point) (q : Twist) (p' : Point) (q' : Twist) :
    Except CryptoLibraryErrors Bool :=
  match curve.unmarshalG1 p, curve.unmarshalG2 q, curve.unmarshalG1 p', curve.unmarshalG2 q' with
  | some P, some Q, some P', some Q' => .ok (Cloudflare.pairingCheck P Q P' Q')
  | _, _, _, _ => .error .EllipticCurvePairingFailed

def discreteLogEquality (x1 y1 x2 y2 : Point) (proof : ℕ × ℕ) :
    Except CryptoLibraryErrors Bool := do
  let tmp1 ← bn128Multiply curve x1 proof.2
  let tmp2 ← bn128Multiply curve y1 proof.1
  let t1prime ← bn128Add curve tmp1 tmp2
  let tmp1 ← bn128Multiply curve x2 proof.2
  let tmp2 ← bn128Multiply curve y2 proof.1
  let t2prime ← bn128Add curve tmp1 tmp2
  let challenge := (curve.keccak256 (encodePoints [x1, y1, x2, y2, t1prime, t2prime])).toNat
  pure (challenge == proof.1)

variable {curve}

theorem bn128Add_ok_iff : bn128Add curve p q = .ok result ↔
    ∃ P Q, curve.unmarshalG1 p = some P ∧ curve.unmarshalG1 q = some Q ∧ curve.marshalG1 (P + Q) =
      result := by
  unfold bn128Add
  split
  · rename_i P Q first second
    simp [first, second]
  · rename_i missing
    constructor
    · intro impossible
      simp at impossible
    · rintro ⟨P, Q, first, second, -⟩
      exact (missing P Q first second).elim

@[simp] theorem bn128Add_marshal (P Q : curve.G1) :
    bn128Add curve (curve.marshalG1 P) (curve.marshalG1 Q) = .ok (curve.marshalG1 (P + Q)) := by
  simp [bn128Add]

@[simp] theorem bn128Multiply_marshal (P : curve.G1) (scalar : ℕ) :
    bn128Multiply curve (curve.marshalG1 P) scalar =
      .ok (curve.marshalG1 ((scalar : ZMod Order) • P)) := by
  simp [bn128Multiply]

end AliceNet.Crypto.CryptoLibrary
