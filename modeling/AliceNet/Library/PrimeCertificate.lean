import Mathlib

/-! Primality of large numbers by certificates that modular powers check. -/

namespace PrimeCertificate

def power (m : ℕ) : (bits base exponent acc : ℕ) → ℕ
  | 0, _, _, acc => acc % m
  | bits + 1, base, exponent, acc =>
    power m bits (base * base % m) (exponent / 2) (if exponent % 2 = 1 then acc * base % m else acc)

private theorem power_modEq (bound : exponent < 2 ^ bits) :
    power m bits base exponent acc ≡ acc * base ^ exponent [MOD m] := by
  induction bits generalizing base exponent acc with
  | zero =>
    obtain rfl : exponent = 0 := by simpa using bound
    simpa [power] using Nat.mod_modEq acc m
  | succ bits ih =>
    have half : exponent / 2 < 2 ^ bits := by
      rw [pow_succ] at bound
      omega
    have square : (base * base % m) ^ (exponent / 2) ≡ base ^ (2 * (exponent / 2)) [MOD m] := by
      rw [pow_mul, pow_two]
      exact (Nat.mod_modEq _ m).pow _
    rw [power]
    refine (ih half).trans ?_
    -- the bit that is shifted out of the exponent decides whether the base enters the accumulator
    by_cases odd : exponent % 2 = 1
    · have split : base ^ exponent = base * base ^ (2 * (exponent / 2)) := by
        rw [← pow_succ']
        congr 1
        omega
      rw [if_pos odd, split, ← mul_assoc]
      exact (Nat.mod_modEq _ m).mul square
    · have even : 2 * (exponent / 2) = exponent := by omega
      rw [if_neg odd]
      exact (square.mul_left acc).trans (by rw [even])

private theorem power_eq_one_iff (bound : exponent < 2 ^ bits) (large : 1 < m) :
    power m bits base exponent 1 % m = 1 ↔ (base : ZMod m) ^ exponent = 1 := by
  have same : power m bits base exponent 1 ≡ 1 * base ^ exponent [MOD m] := power_modEq bound
  rw [one_mul] at same
  have cast : (base : ZMod m) ^ exponent = 1 ↔ base ^ exponent ≡ 1 [MOD m] := by
    rw [← ZMod.natCast_eq_natCast_iff, Nat.cast_pow, Nat.cast_one]
  rw [same, cast, Nat.ModEq, Nat.mod_eq_of_lt large]

structure Entry where
  number : ℕ
  generator : ℕ
  primes : List ℕ

def Entry.valid (bits : ℕ) (known : List ℕ) (entry : Entry) : Bool :=
  decide (1 < entry.number) && decide (entry.number < 2 ^ bits) &&
    power entry.number bits entry.generator (entry.number - 1) 1 % entry.number == 1 &&
    entry.primes.all (fun q => known.contains q &&
      power entry.number bits entry.generator ((entry.number - 1) / q) 1 % entry.number != 1) &&
    -- every prime factor of the predecessor is listed
    decide (entry.number - 1 ∣ entry.primes.prod ^ bits)

theorem Entry.prime {entry : Entry} (known_prime : ∀ q ∈ known, q.Prime)
    (valid : entry.valid bits known = true) : entry.number.Prime := by
  simp only [Entry.valid, Bool.and_eq_true, decide_eq_true_eq, beq_iff_eq, List.all_eq_true,
    bne_iff_ne, ne_eq, List.contains_iff_mem] at valid
  obtain ⟨⟨⟨⟨large, bound⟩, unit⟩, factors⟩, complete⟩ := valid
  refine lucas_primality entry.number (entry.generator : ZMod entry.number) ?_ ?_
  · exact (power_eq_one_iff (by omega) large).mp unit
  · intro q prime divides trivial
    obtain ⟨listed, mem, dividesListed⟩ :=
      (Prime.dvd_prod_iff prime.prime).mp (prime.dvd_of_dvd_pow (divides.trans complete))
    obtain ⟨found, proper⟩ := factors listed mem
    obtain rfl := (Nat.prime_dvd_prime_iff_eq prime (known_prime listed found)).mp dividesListed
    have small : (entry.number - 1) / q < 2 ^ bits := (Nat.div_le_self _ _).trans_lt (by omega)
    exact proper ((power_eq_one_iff small large).mpr trivial)

/-- Each entry may use the numbers of the entries before it. -/
def checks (bits : ℕ) : (known : List ℕ) → List Entry → Bool
  | _, [] => true
  | known, entry :: rest => entry.valid bits known && checks bits (entry.number :: known) rest

theorem checks_prime (known_prime : ∀ q ∈ known, q.Prime)
    (valid : checks bits known entries = true) : ∀ entry ∈ entries, entry.number.Prime := by
  induction entries generalizing known with
  | nil => simp
  | cons first rest ih =>
    rw [checks, Bool.and_eq_true] at valid
    have prime := first.prime known_prime valid.1
    rw [List.forall_mem_cons]
    exact ⟨prime, ih (List.forall_mem_cons.mpr ⟨prime, known_prime⟩) valid.2⟩

end PrimeCertificate
