import Mathlib

/-! Byte strings and 32-byte words in big-endian order. -/

abbrev Bytes := List UInt8

abbrev Bytes32 := BitVec 256

namespace Bytes

/-- The `count` low bytes of a number, most significant first. -/
def bigEndian : ℕ → ℕ → Bytes
  | 0, _ => []
  | count + 1, n => UInt8.ofNat (n / 256 ^ count) :: bigEndian count n

def value (bytes : Bytes) : ℕ :=
  bytes.foldl (fun acc byte => acc * 256 + byte.toNat) 0

@[simp] theorem length_bigEndian (count n : ℕ) : (bigEndian count n).length = count := by
  induction count with
  | zero => rfl
  | succ count ih => simp [bigEndian, ih]

private theorem foldl_value (bytes : Bytes) (start : ℕ) :
    bytes.foldl (fun acc byte => acc * 256 + byte.toNat) start = start * 256 ^ bytes.length +
      value bytes := by
  induction bytes generalizing start with
  | nil => simp [value]
  | cons byte rest ih =>
    simp only [value, List.foldl_cons, List.length_cons] at ih ⊢
    rw [ih, ih (0 * 256 + byte.toNat), pow_succ]
    ring

private theorem value_cons (byte : UInt8) (rest : Bytes) :
    value (byte :: rest) = byte.toNat * 256 ^ rest.length + value rest := by
  rw [value, List.foldl_cons, foldl_value]
  simp

theorem value_append (first second : Bytes) :
    value (first ++ second) = value first * 256 ^ second.length + value second := by
  rw [value, List.foldl_append, foldl_value]
  rfl

theorem value_bigEndian (count n : ℕ) : value (bigEndian count n) = n % 256 ^ count := by
  induction count with
  | zero => simp [bigEndian, value, Nat.mod_one]
  | succ count ih =>
    have byte : (UInt8.ofNat (n / 256 ^ count)).toNat = n / 256 ^ count % 256 := by simp
    rw [bigEndian, value_cons, ih, length_bigEndian, byte, Nat.mod_pow_succ]
    ring

end Bytes

namespace Bytes32

def toBytes (word : Bytes32) : Bytes :=
  Bytes.bigEndian 32 word.toNat

def ofBytes (bytes : Bytes) : Bytes32 :=
  BitVec.ofNat 256 (Bytes.value bytes)

@[simp] theorem length_toBytes (word : Bytes32) : word.toBytes.length = 32 :=
  Bytes.length_bigEndian 32 _

@[simp] theorem ofBytes_toBytes (word : Bytes32) : ofBytes word.toBytes = word := by
  apply BitVec.eq_of_toNat_eq
  rw [ofBytes, toBytes, Bytes.value_bigEndian, BitVec.toNat_ofNat]
  have bound := word.isLt
  norm_num at bound ⊢
  omega

theorem toBytes_injective : Function.Injective toBytes :=
  Function.LeftInverse.injective ofBytes_toBytes

theorem append_injective {a a' : Bytes32} (same : a.toBytes ++ rest = a'.toBytes ++ rest') :
    a = a' ∧ rest = rest' := by
  obtain ⟨words, tails⟩ := List.append_inj same (by simp)
  exact ⟨toBytes_injective words, tails⟩

end Bytes32
