import Mathlib

/-! Distribution of a common pot over weighted holders by one running index, on a circle of size
`modulus`. -/

namespace Accrual

open Finset

variable {ι : Type*}

def lag (modulus index mark : ℕ) : ℕ :=
  (((index : ℤ) - mark) % modulus).toNat

@[simp] theorem lag_self (modulus index : ℕ) : lag modulus index index = 0 := by
  simp [lag]

theorem lag_of_le (ordered : mark ≤ index) (bound : index < modulus) :
    lag modulus index mark = index - mark := by
  unfold lag
  rw [Int.emod_eq_of_lt (by omega) (by omega)]
  omega

theorem lag_of_lt (wrapped : index < mark) (bound : mark < modulus) :
    lag modulus index mark = modulus - mark + index := by
  unfold lag
  rw [← Int.add_emod_right, Int.emod_eq_of_lt (by omega) (by omega)]
  omega

private theorem lag_advance (index mark step : ℕ) (pos : 0 < modulus) :
    lag modulus ((index + step) % modulus) mark ≤ lag modulus index mark + step := by
  have nonneg := Int.emod_nonneg ((index : ℤ) - mark) (by omega : (modulus : ℤ) ≠ 0)
  have shifted : (((index + step) % modulus : ℕ) : ℤ) - mark ≡
      (lag modulus index mark + step : ℕ) [ZMOD modulus] := by
    have cast : ((lag modulus index mark + step : ℕ) : ℤ) = ((index : ℤ) - mark) % modulus +
        step := by
      simp [lag, nonneg]
    rw [cast]
    push_cast
    calc ((index : ℤ) + step) % modulus - mark ≡ (index + step) - mark [ZMOD modulus] :=
          (Int.mod_modEq _ _).sub_right _
      _ = ((index : ℤ) - mark) + step := by ring
      _ ≡ ((index : ℤ) - mark) % modulus + step [ZMOD modulus] :=
        ((Int.mod_modEq _ _).symm).add_right _
  have reduced : lag modulus ((index + step) % modulus) mark =
      (lag modulus index mark + step) % modulus := by
    rw [lag, shifted, ← Int.natCast_mod, Int.toNat_natCast]
  rw [reduced]
  exact Nat.mod_le _ _

def owed (modulus index : ℕ) (holders : Finset ι) (weight mark : ι → ℕ) : ℕ :=
  ∑ holder ∈ holders, weight holder * lag modulus index (mark holder)

private theorem owed_advance (pos : 0 < modulus) (index : ℕ) (holders : Finset ι)
    (weight mark : ι → ℕ) (step : ℕ) :
    owed modulus ((index + step) % modulus) holders weight mark ≤
      owed modulus index holders weight mark + (∑ holder ∈ holders, weight holder) * step := by
  unfold owed
  rw [sum_mul, ← sum_add_distrib]
  refine sum_le_sum fun holder _ => ?_
  rw [← Nat.mul_add]
  exact Nat.mul_le_mul_left _ (lag_advance index (mark holder) step pos)

theorem spread_le (pos : 0 < modulus) (index pot : ℕ) (holders : Finset ι) (weight mark : ι → ℕ)
    (total : ∑ holder ∈ holders, weight holder = shares) :
    (pot - pot / shares * shares) +
        owed modulus ((index + pot / shares) % modulus) holders weight mark ≤
      pot + owed modulus index holders weight mark := by
  have advanced := owed_advance pos index holders weight mark (pot / shares)
  rw [total, Nat.mul_comm shares] at advanced
  have part := Nat.div_mul_le_self pot shares
  omega

variable {holders : Finset ι} {weight mark weight' mark' : ι → ℕ} {holder : ι}

theorem owed_congr (sameWeight : ∀ other ∈ holders, weight' other = weight other)
    (sameMark : ∀ other ∈ holders, mark' other = mark other) :
    owed modulus index holders weight' mark' = owed modulus index holders weight mark :=
  sum_congr rfl fun other mem => by rw [sameWeight other mem, sameMark other mem]

variable [DecidableEq ι]

theorem owed_eq_erase (mem : holder ∈ holders) :
    owed modulus index holders weight mark =
      weight holder * lag modulus index (mark holder) +
        owed modulus index (holders.erase holder) weight mark :=
  (add_sum_erase holders _ mem).symm

theorem owed_paid (mem : holder ∈ holders) (paid : mark holder = index) :
    owed modulus index holders weight mark = owed modulus index (holders.erase holder) weight
      mark := by
  rw [owed_eq_erase mem, paid, lag_self, Nat.mul_zero, Nat.zero_add]

theorem owed_settle (mem : holder ∈ holders) (paid : mark' holder = index)
    (sameWeight : ∀ other ∈ holders.erase holder, weight' other = weight other)
    (sameMark : ∀ other ∈ holders.erase holder, mark' other = mark other) :
    owed modulus index holders weight' mark' + weight holder * lag modulus index (mark holder) =
      owed modulus index holders weight mark := by
  rw [owed_paid mem paid, owed_congr sameWeight sameMark, owed_eq_erase mem, Nat.add_comm]

theorem owed_join (fresh : holder ∉ holders) (paid : mark' holder = index)
    (sameWeight : ∀ other ∈ holders, weight' other = weight other)
    (sameMark : ∀ other ∈ holders, mark' other = mark other) :
    owed modulus index (insert holder holders) weight' mark' =
      owed modulus index holders weight mark := by
  rw [← owed_congr sameWeight sameMark]
  unfold owed
  rw [sum_insert fresh, paid, lag_self, Nat.mul_zero, Nat.zero_add]

end Accrual
