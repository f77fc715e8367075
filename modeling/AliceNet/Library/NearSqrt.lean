import Mathlib

/-! Integer square roots by Newton steps of growing precision. -/

namespace NearSqrt

/-- The root of `n / unit` lies within one of `a`. -/
def Near (n unit a : ℕ) : Prop :=
  (a - 1) ^ 2 * unit < n ∧ n < (a + 1) ^ 2 * unit

variable {n unit a M : ℕ}

private theorem lt_of_step (pos : 0 < M * unit * a) :
    n < (M * a + n / (4 * M * unit * a) + 1) ^ 2 * unit := by
  have quotient : n < 4 * M * unit * a * (n / (4 * M * unit * a) + 1) :=
    Nat.lt_mul_div_succ n (by nlinarith)
  generalize n / (4 * M * unit * a) = q at quotient ⊢
  have means : 4 * (M * a) * (q + 1) ≤ (M * a + q + 1) ^ 2 := by
    zify
    nlinarith [sq_nonneg ((M : ℤ) * a - (q + 1))]
  calc n < 4 * M * unit * a * (q + 1) := quotient
    _ = 4 * (M * a) * (q + 1) * unit := by ring
    _ ≤ (M * a + q + 1) ^ 2 * unit := Nat.mul_le_mul_right _ means

private theorem root_lt (N X m σ q : ℝ) (root : σ * σ = N) (low : 2 * (X - m) < σ)
    (high : σ < 2 * (X + m)) (mpos : 0 < m) (large : m * m ≤ X) (below : 4 * X * q ≤ N) :
    X + q - 1 < σ := by
  by_contra above
  push Not at above
  have Xpos : 0 < X := by nlinarith
  have far : 4 * (m * m) ≤ (σ - 2 * X) * (σ - 2 * X) := by nlinarith
  nlinarith

theorem Near.step (near : Near n (4 * M ^ 2 * unit) a) (unitPos : 0 < unit) (pos : 0 < M)
    (enough : M ≤ a) : Near n unit (M * a + n / (4 * M * unit * a)) := by
  have apos : 0 < a := by omega
  refine ⟨?_, lt_of_step (by positivity)⟩
  obtain ⟨low, high⟩ := near
  have quotient : n / (4 * M * unit * a) * (4 * M * unit * a) ≤ n := Nat.div_mul_le_self _ _
  generalize n / (4 * M * unit * a) = q at quotient ⊢
  have u : (0 : ℝ) < unit := by exact_mod_cast unitPos
  have m : (0 : ℝ) < M := by exact_mod_cast pos
  have larger : (M : ℝ) ≤ a := by exact_mod_cast enough
  have one : (1 : ℝ) ≤ a := by exact_mod_cast apos
  have root : √((n : ℝ) / unit) * √((n : ℝ) / unit) = n / unit := Real.mul_self_sqrt (by positivity)
  have nonneg := Real.sqrt_nonneg ((n : ℝ) / unit)
  have lowReal : ((a : ℝ) - 1) ^ 2 * (4 * M ^ 2 * unit) < n := by
    have cast : ((a - 1 : ℕ) : ℝ) = (a : ℝ) - 1 := by push_cast [apos]; ring
    rw [← cast]
    exact_mod_cast low
  have highReal : (n : ℝ) < (a + 1) ^ 2 * (4 * M ^ 2 * unit) := by exact_mod_cast high
  have below : 4 * ((M : ℝ) * a) * q ≤ n / unit := by
    rw [le_div_iff₀ u]
    have cast : (q : ℝ) * (4 * M * unit * a) ≤ n := by exact_mod_cast quotient
    linarith
  have near := root_lt (n / unit) (M * a) M (√((n : ℝ) / unit)) q root ?_ ?_ m (by nlinarith) below
  · have product : 1 ≤ M * a := Nat.one_le_iff_ne_zero.mpr (by positivity)
    have cast : ((M * a + q - 1 : ℕ) : ℝ) = (M : ℝ) * a + q - 1 := by
      rw [Nat.cast_sub (by omega)]
      push_cast
      ring
    have square : ((M * a + q - 1 : ℕ) : ℝ) ^ 2 < n / unit := by
      rw [cast]
      refine (Real.lt_sqrt ?_).mp near
      have : (1 : ℝ) ≤ (M : ℝ) * a := by exact_mod_cast product
      have : (0 : ℝ) ≤ q := by positivity
      linarith
    rw [lt_div_iff₀ u] at square
    exact_mod_cast square
  · apply Real.lt_sqrt_of_sq_lt
    rw [lt_div_iff₀ u]
    calc _ = ((a : ℝ) - 1) ^ 2 * (4 * M ^ 2 * unit) := by ring
      _ < n := lowReal
  · rw [Real.sqrt_lt' (by positivity), div_lt_iff₀ u]
    calc (n : ℝ) < (a + 1) ^ 2 * (4 * M ^ 2 * unit) := highReal
      _ = _ := by ring

theorem sqrt_of_near (near : Near (x * 4 ^ e) 1 a) :
    (if a / 2 ^ e * (a / 2 ^ e) ≤ x then a / 2 ^ e else a / 2 ^ e - 1) = Nat.sqrt x := by
  obtain ⟨low, high⟩ := near
  rw [mul_one] at low high
  have four : (4 : ℕ) ^ e = 2 ^ e * 2 ^ e := by
    rw [← mul_pow]
    norm_num
  have unit : 0 < 2 ^ e := by positivity
  have under : a / 2 ^ e * 2 ^ e ≤ a := Nat.div_mul_le_self a _
  have above : a < 2 ^ e * (a / 2 ^ e + 1) := Nat.lt_mul_div_succ a unit
  rw [four] at low high
  generalize a / 2 ^ e = r at under above ⊢
  generalize 2 ^ e = u at unit under above low high
  have small : x < (r + 1) * (r + 1) := by
    by_contra large
    have scaled := Nat.mul_le_mul (not_lt.mp large) (le_refl (u * u))
    have square := Nat.mul_le_mul (Nat.succ_le_of_lt above) (Nat.succ_le_of_lt above)
    nlinarith
  split
  · rename_i root
    exact Nat.eq_sqrt.mpr ⟨root, small⟩
  · rename_i high
    obtain ⟨r, rfl⟩ : ∃ k, r = k + 1 := ⟨r - 1, by cases r <;> simp_all⟩
    refine Nat.eq_sqrt.mpr ⟨?_, by simpa using high⟩
    have down : r * u ≤ a - 1 := by
      have : r * u + u ≤ a := by linarith
      omega
    by_contra large
    simp only [Nat.add_sub_cancel, not_le] at large
    have square := Nat.mul_le_mul down down
    have scaled := Nat.mul_le_mul large.le (le_refl (u * u))
    nlinarith

end NearSqrt
