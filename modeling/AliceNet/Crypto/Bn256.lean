import AliceNet.Library.PrimeCertificate
import AliceNet.Library.Bytes

/-! The pairing curve: the groups are a parameter, with the laws of the operations. -/

namespace AliceNet.Crypto

/-- The number of elements of each of the groups -/
def Order : ℕ := 21888242871839275222246405745257275088548364400416034343698204186575808495617

def smallPrimes : List ℕ :=
  [2, 3, 5, 7, 11, 13, 29, 83, 107, 229, 379, 661, 823, 853, 983, 1637, 3691, 4999, 11003, 93001,
    237073, 1593227]

def orderCertificate : List PrimeCertificate.Entry :=
  [⟨405928799, 22, [2, 11, 3691, 4999]⟩,
   ⟨12048837557, 2, [2, 7, 661, 93001]⟩,
   ⟨5156902474397, 2, [2, 107, 12048837557]⟩,
   ⟨1670836401704629, 2, [2, 3, 5156902474397]⟩,
   ⟨639533339, 2, [2, 229, 853, 1637]⟩,
   ⟨65865678001877903, 5, [2, 83, 379, 1637, 639533339]⟩,
   ⟨13818364434197438864469338081, 3, [2, 5, 823, 1593227, 65865678001877903]⟩,
   ⟨Order, 5, [2, 3, 13, 29, 983, 11003, 237073, 405928799, 1670836401704629,
     13818364434197438864469338081]⟩]

private theorem smallPrimes_prime : ∀ q ∈ smallPrimes, q.Prime := by
  simp only [smallPrimes, List.forall_mem_cons, List.not_mem_nil, false_imp_iff, implies_true,
    and_true]
  norm_num

private theorem orderCertificate_checks :
    PrimeCertificate.checks 256 smallPrimes orderCertificate = true := by
  decide +kernel

theorem order_prime : Order.Prime :=
  PrimeCertificate.checks_prime smallPrimes_prime orderCertificate_checks _
    (List.getLast_mem (l := orderCertificate) (by decide))

instance : Fact Order.Prime := ⟨order_prime⟩

/-- A point of the curve as two words -/
abbrev Point := ℕ × ℕ

/-- A point of the twist as four words -/
abbrev Twist := ℕ × ℕ × ℕ × ℕ

namespace CryptoLibrary

def GROUP_ORDER : ℕ := Order
def FIELD_MODULUS : ℕ :=
    21888242871839275222246405745257275088696311157297823662689037894645226208583

def G1 : Point := (1, 2)

def H1 : Point :=
  (2788159449993757418373833378244720686978228247930022635519861138679785693683,
   12344898367754966892037554998108864957174899548424978619954608743682688483244)

/-- The negation of the generator of the second group -/
def H2 : Twist :=
  (11559732032986387107991004021392285783925812861821192530917403151452391805634,
   10857046999023057135944570762232829481370756359578518086990519993285655852781,
   17805874995975841540914202342111839520379459829704422454583296818431106115052,
   13392588948715843804641432497768002650278120570034223513918757245338268106653)

end CryptoLibrary

def h1BaseMessage : Bytes := "MadHive Rocks!".toUTF8.toList

structure Curve where
  G1 : Type
  G2 : Type
  GT : Type
  [addCommGroup1 : AddCommGroup G1]
  [addCommGroup2 : AddCommGroup G2]
  [addCommGroupT : AddCommGroup GT]
  [module1 : Module (ZMod Order) G1]
  [module2 : Module (ZMod Order) G2]
  [moduleT : Module (ZMod Order) GT]
  [decidableEq1 : DecidableEq G1]
  [decidableEq2 : DecidableEq G2]
  [decidableEqT : DecidableEq GT]
  g1 : G1
  g2 : G2
  generates1 : ∀ P : G1, ∃ k : ZMod Order, k • g1 = P
  generates2 : ∀ Q : G2, ∃ k : ZMod Order, k • g2 = Q
  pairing : G1 →ₗ[ZMod Order] G2 →ₗ[ZMod Order] GT
  pairing_ne_zero : pairing g1 g2 ≠ 0
  marshalG1 : G1 → Point
  unmarshalG1 : Point → Option G1
  unmarshalG1_eq_some : ∀ {words P}, unmarshalG1 words = some P ↔ marshalG1 P = words
  marshalG2 : G2 → Twist
  unmarshalG2 : Twist → Option G2
  unmarshalG2_eq_some : ∀ {words Q}, unmarshalG2 words = some Q ↔ marshalG2 Q = words
  marshalG1_zero : marshalG1 0 = (0, 0)
  marshalG2_zero : marshalG2 0 = (0, 0, 0, 0)
  /-- No other point has the abscissa zero: three is not a square of the field. -/
  marshalG1_abscissa : ∀ {P}, (marshalG1 P).1 = 0 → P = 0
  marshalG1_g1 : marshalG1 g1 = CryptoLibrary.G1
  marshalG2_neg : marshalG2 (-g2) = CryptoLibrary.H2
  /-- `none` for a point whose logarithm is known -/
  hashToG1 : Bytes → Option G1
  h1 : G1
  hashToG1_base : hashToG1 h1BaseMessage = some h1
  marshalG1_h1 : marshalG1 h1 = CryptoLibrary.H1
  keccak256 : Bytes → Bytes32

namespace Curve

attribute [instance] addCommGroup1 addCommGroup2 addCommGroupT module1 module2 moduleT decidableEq1
  decidableEq2 decidableEqT

variable (curve : Curve)

@[simp] theorem unmarshalG1_marshalG1 (P : curve.G1) :
    curve.unmarshalG1 (curve.marshalG1 P) = some P :=
  curve.unmarshalG1_eq_some.mpr rfl

@[simp] theorem unmarshalG2_marshalG2 (Q : curve.G2) :
    curve.unmarshalG2 (curve.marshalG2 Q) = some Q :=
  curve.unmarshalG2_eq_some.mpr rfl

theorem marshalG2_injective : Function.Injective curve.marshalG2 := by
  intro Q Q' same
  have found := curve.unmarshalG2_marshalG2 Q
  rw [same, curve.unmarshalG2_marshalG2] at found
  exact (Option.some.inj found).symm

theorem g1_ne_zero : curve.g1 ≠ 0 := by
  intro zero
  apply curve.pairing_ne_zero
  rw [zero, map_zero, LinearMap.zero_apply]

theorem h1_ne_zero : curve.h1 ≠ 0 := by
  intro zero
  have words := curve.marshalG1_h1
  rw [zero, curve.marshalG1_zero] at words
  revert words
  decide

theorem pairing_g2_ne_zero (nonzero : P ≠ 0) : curve.pairing P curve.g2 ≠ 0 := by
  obtain ⟨k, rfl⟩ := curve.generates1 P
  rw [map_smul, LinearMap.smul_apply]
  refine smul_ne_zero ?_ curve.pairing_ne_zero
  rintro rfl
  exact nonzero (zero_smul _ _)

theorem pairing_balanced (a : ZMod Order) (P : curve.G1) :
    curve.pairing (a • P) (-curve.g2) + curve.pairing P (a • curve.g2) = 0 := by
  rw [map_smul, map_smul, LinearMap.smul_apply, map_neg, smul_neg, neg_add_cancel]

theorem pairing_balanced_iff (nonzero : P ≠ 0) (a : ZMod Order) (Q : curve.G2) :
    curve.pairing (a • P) (-curve.g2) + curve.pairing P Q = 0 ↔ Q = a • curve.g2 := by
  obtain ⟨b, rfl⟩ := curve.generates2 Q
  have product : curve.pairing (a • P) (-curve.g2) + curve.pairing P (b • curve.g2) =
      (b - a) • curve.pairing P curve.g2 := by
    rw [map_smul, map_smul, LinearMap.smul_apply, map_neg, smul_neg, sub_smul]
    abel
  rw [product, smul_eq_zero_iff_left (curve.pairing_g2_ne_zero nonzero), sub_eq_zero]
  constructor
  · rintro rfl
    rfl
  · intro same
    have image := congrArg (curve.pairing P) same
    rw [map_smul, map_smul, ← sub_eq_zero, ← sub_smul,
      smul_eq_zero_iff_left (curve.pairing_g2_ne_zero nonzero)] at image
    exact sub_eq_zero.mp image

end Curve

def Cloudflare.pairingCheck {curve : Curve} (P : curve.G1) (Q : curve.G2) (P' : curve.G1)
    (Q' : curve.G2) : Bool :=
  decide (curve.pairing P Q + curve.pairing P' Q' = 0)

end AliceNet.Crypto
