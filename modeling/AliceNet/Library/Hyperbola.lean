import Mathlib

/-! The branch `z ↦ √(z ^ 2 + c)` of a hyperbola. -/

namespace Hyperbola

noncomputable section

variable {c : ℝ}

def branch (c z : ℝ) : ℝ := √(z ^ 2 + c)

def slope (c z : ℝ) : ℝ := z / branch c z

theorem branch_pos (pos : 0 < c) (z : ℝ) : 0 < branch c z :=
  Real.sqrt_pos.mpr (by positivity)

private theorem branch_sq (pos : 0 < c) (z : ℝ) : branch c z ^ 2 = z ^ 2 + c :=
  Real.sq_sqrt (by positivity)

private theorem sqrt_le_branch (z : ℝ) : √c ≤ branch c z :=
  Real.sqrt_le_sqrt (by nlinarith [sq_nonneg z])

private theorem le_branch (nonneg : 0 ≤ c) (z : ℝ) : z ≤ branch c z :=
  Real.le_sqrt_of_sq_le (by linarith)

theorem rise_le_step (nonneg : 0 ≤ c) (z : ℝ) (step : 0 ≤ x) :
    branch c (z + x) ≤ branch c z + x := by
  have above := le_branch nonneg z
  have square : branch c z ^ 2 = z ^ 2 + c := Real.sq_sqrt (by positivity)
  refine Real.sqrt_le_iff.mpr ⟨add_nonneg (Real.sqrt_nonneg _) step, ?_⟩
  calc (z + x) ^ 2 + c = z ^ 2 + c + 2 * x * z + x ^ 2 := by ring
    _ ≤ z ^ 2 + c + 2 * x * branch c z + x ^ 2 := by gcongr
    _ = (branch c z + x) ^ 2 := by rw [← square]; ring

section

variable (pos : 0 < c)

include pos

theorem branch_hasDerivAt (z : ℝ) : HasDerivAt (branch c) (slope c z) z := by
  have inner : HasDerivAt (fun y : ℝ => y ^ 2 + c) (2 * z) z := by
    simpa using (hasDerivAt_pow 2 z).add_const c
  have root := inner.sqrt (by positivity)
  rw [mul_div_mul_left _ _ two_ne_zero] at root
  exact root

theorem slope_hasDerivAt (z : ℝ) : HasDerivAt (slope c) (c / branch c z ^ 3) z := by
  have quotient := (hasDerivAt_id z).div (branch_hasDerivAt pos z) (branch_pos pos z).ne'
  have value : (1 * branch c z - z * slope c z) / branch c z ^ 2 = c / branch c z ^ 3 := by
    have nonzero := (branch_pos pos z).ne'
    rw [slope]
    field_simp
    rw [branch_sq pos]
    ring
  rw [id, value] at quotient
  exact quotient

private theorem slope_mono : Monotone (slope c) := by
  refine monotone_of_deriv_nonneg (fun z => (slope_hasDerivAt pos z).differentiableAt) fun z => ?_
  rw [(slope_hasDerivAt pos z).deriv]
  have := branch_pos pos z
  positivity

private theorem curvature_le (z : ℝ) : c / branch c z ^ 3 ≤ 1 / √c := by
  have root := Real.sqrt_pos.mpr pos
  have cube : √c ^ 3 ≤ branch c z ^ 3 := pow_le_pow_left₀ root.le (sqrt_le_branch z) 3
  rw [div_le_div_iff₀ (pow_pos (branch_pos pos z) 3) root, one_mul]
  calc c * √c = √c ^ 2 * √c := by rw [Real.sq_sqrt pos.le]
    _ = √c ^ 3 := by ring
    _ ≤ branch c z ^ 3 := cube

private theorem slope_sub_le (le : z ≤ w) : slope c w - slope c z ≤ (w - z) / √c := by
  have flat : Antitone fun z => slope c z - z / √c := by
    have derivative (z : ℝ) : HasDerivAt (fun z => slope c z - z / √c) (c / branch c z ^ 3 - 1 / √c)
        z :=
      (slope_hasDerivAt pos z).sub ((hasDerivAt_id z).div_const √c)
    refine antitone_of_deriv_nonpos (fun z => (derivative z).differentiableAt) fun z => ?_
    rw [(derivative z).deriv, sub_nonpos]
    exact curvature_le pos z
  have := flat le
  simp only at this
  rw [sub_div]
  linarith

theorem rise_mono (le : z ≤ w) (step : 0 ≤ x) :
    branch c (z + x) - branch c z ≤ branch c (w + x) - branch c w := by
  have mono : Monotone fun z => branch c (z + x) - branch c z := by
    have derivative (z : ℝ) :
        HasDerivAt (fun z => branch c (z + x) - branch c z) (slope c (z + x) - slope c z) z :=
      ((branch_hasDerivAt pos (z + x)).comp_add_const z x).sub (branch_hasDerivAt pos z)
    refine monotone_of_deriv_nonneg (fun z => (derivative z).differentiableAt) fun z => ?_
    rw [(derivative z).deriv, sub_nonneg]
    exact slope_mono pos (by linarith)
  exact mono le

theorem rise_le (le : z ≤ w) (step : 0 ≤ x) :
    branch c (w + x) - branch c w ≤ branch c (z + x) - branch c z + x / √c * (w - z) := by
  have flat : Antitone fun z => branch c (z + x) - branch c z - x / √c * z := by
    have derivative (z : ℝ) : HasDerivAt (fun z => branch c (z + x) - branch c z - x / √c * z)
        (slope c (z + x) - slope c z - x / √c * 1) z :=
      (((branch_hasDerivAt pos (z + x)).comp_add_const z x).sub (branch_hasDerivAt pos z)).sub
        ((hasDerivAt_id z).const_mul (x / √c))
    refine antitone_of_deriv_nonpos (fun z => (derivative z).differentiableAt) fun z => ?_
    rw [(derivative z).deriv, mul_one, sub_nonpos]
    have := slope_sub_le pos (show z ≤ z + x by linarith)
    simpa using this
  have := flat le
  simp only at this
  linarith

end

end

end Hyperbola
