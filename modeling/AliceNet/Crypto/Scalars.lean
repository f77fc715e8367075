import AliceNet.Crypto.Bn256

/-! The laws of the curve can be met: the scalars themselves form groups with all of them. -/

namespace AliceNet.Crypto.Scalars

def points : List Point :=
  [(0, 0),
   CryptoLibrary.G1,
   (1368015179489954701390400359078579693043519447331113978918064868415326638035,
    9918110051302171585080402603319702774565515993150576347155970296011118125764),
   (3353031288059533942658390886683067124040920775575537747144343083137631628272,
    19321533766552368860946552437480515441416830039777911637913418824951667761761),
   (3010198690406615200373504922352659861758983907867017329644089018310584441462,
    4027184618003122424972590350825261965929648733675738730716654005365300998076),
   (10744596414106452074759370245733544594153395043370666422502510773307029471145,
    848677436511517736191562425154572367705380862894644942948681172815252343932),
   (4503322228978077916651710446042370109107355802721800704639343137502100212473,
    6132642251294427119375180147349983541569387941788025780665104001559216576968),
   (10415861484417082502655338383609494480414113902179649885744799961447382638712,
    10196215078179488638353184030336251401353352596818396260819493263908881608606),
   CryptoLibrary.H1]

def marshalG1 (k : ZMod Order) : Point := points.getD k.val (k.val, 0)

def decodeG1 (words : Point) : ZMod Order :=
  if words ∈ points then (points.idxOf words : ZMod Order) else (words.1 : ZMod Order)

def marshalG2 (k : ZMod Order) : Twist :=
  if k = -1 then CryptoLibrary.H2 else (k.val, 0, 0, 0)

def decodeG2 (words : Twist) : ZMod Order :=
  if words = CryptoLibrary.H2 then -1 else (words.1 : ZMod Order)

theorem marshalG1_of_lt (small : k.val < points.length) :
    marshalG1 k = points.get ⟨k.val, small⟩ := by
  rw [marshalG1, List.getD_eq_getElem _ _ small]
  rfl

theorem marshalG1_of_le (large : points.length ≤ k.val) : marshalG1 k = (k.val, 0) :=
  List.getD_eq_default _ _ large

private theorem points_nodup : points.Nodup := by decide

private theorem plain_not_mem (large : points.length ≤ n) : (n, 0) ∉ points := by
  intro mem
  have first : ∀ point ∈ points, point.2 = 0 → point.1 = 0 := by decide
  have zero : n = 0 := first _ mem rfl
  have some : points.length ≠ 0 := by decide
  omega

private theorem decodeG1_marshalG1 (k : ZMod Order) : decodeG1 (marshalG1 k) = k := by
  by_cases small : k.val < points.length
  · rw [marshalG1_of_lt small, decodeG1, if_pos (List.get_mem _ _), List.get_eq_getElem,
      points_nodup.idxOf_getElem, ZMod.natCast_zmod_val]
  · have large := not_lt.mp small
    rw [marshalG1_of_le large, decodeG1, if_neg (plain_not_mem large), ZMod.natCast_zmod_val]

private theorem decodeG2_marshalG2 (k : ZMod Order) : decodeG2 (marshalG2 k) = k := by
  unfold marshalG2
  split
  · rename_i same
    rw [decodeG2, if_pos rfl, same]
  · rw [decodeG2, if_neg, ZMod.natCast_zmod_val]
    intro same
    have second : (0 : ℕ) = CryptoLibrary.H2.2.1 := congrArg (fun words : Twist => words.2.1) same
    revert second
    decide

private theorem marshalG1_abscissa {k : ZMod Order} (zero : (marshalG1 k).1 = 0) : k = 0 := by
  rw [← ZMod.val_eq_zero]
  by_cases small : k.val < points.length
  · rw [marshalG1_of_lt small] at zero
    have first : ∀ i : Fin points.length, (points.get i).1 = 0 → i.val = 0 := by decide
    exact first _ zero
  · rw [marshalG1_of_le (not_lt.mp small)] at zero
    exact zero

/-- The words that some element has -/
def unmarshal {words group : Type} [DecidableEq words] (marshal : group → words)
    (decode : words → group) (w : words) : Option group :=
  if marshal (decode w) = w then some (decode w) else none

private theorem unmarshal_eq_some [DecidableEq words] {marshal : group → words}
    (inverse : ∀ P, decode (marshal P) = P) {w : words} :
    unmarshal marshal decode w = some P ↔ marshal P = w := by
  unfold unmarshal
  constructor
  · intro found
    split at found
    · rename_i same
      rw [← Option.some.inj found, same]
    · cases found
  · rintro rfl
    rw [inverse, if_pos rfl]

def hashToG1 (message : Bytes) : Option (ZMod Order) :=
  if message = h1BaseMessage then some 8 else some message.length

private theorem marshalG1_eight : marshalG1 8 = CryptoLibrary.H1 := by decide +kernel

/-- Some words of 64 and of 40 bytes have the same value. -/
def keccak256 (bytes : Bytes) : Bytes32 :=
  BitVec.ofNat 256 (Bytes.value bytes % (7 * (2 ^ 192 - 1)))

def curve : Curve where
  G1 := ZMod Order
  G2 := ZMod Order
  GT := ZMod Order
  g1 := 1
  g2 := 1
  generates1 P := ⟨P, mul_one P⟩
  generates2 Q := ⟨Q, mul_one Q⟩
  pairing := LinearMap.mul (ZMod Order) (ZMod Order)
  pairing_ne_zero := by simp
  marshalG1 := marshalG1
  unmarshalG1 := unmarshal marshalG1 decodeG1
  unmarshalG1_eq_some := unmarshal_eq_some decodeG1_marshalG1
  marshalG2 := marshalG2
  unmarshalG2 := unmarshal marshalG2 decodeG2
  unmarshalG2_eq_some := unmarshal_eq_some decodeG2_marshalG2
  marshalG1_zero := by decide +kernel
  marshalG2_zero := by decide +kernel
  marshalG1_abscissa := marshalG1_abscissa
  marshalG1_g1 := by decide +kernel
  marshalG2_neg := by decide +kernel
  hashToG1 := hashToG1
  h1 := 8
  hashToG1_base := by simp [hashToG1]
  marshalG1_h1 := marshalG1_eight
  keccak256 := keccak256

end AliceNet.Crypto.Scalars
