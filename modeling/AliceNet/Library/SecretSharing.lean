import Mathlib.LinearAlgebra.Lagrange

/-! Sharing of a secret by a polynomial over a field, with commitments in a module. -/

namespace SecretSharing

open Polynomial List

section Evaluation

variable {F M : Type*} [Field F] [AddCommGroup M] [Module F M]

def evalAt (coefficients : List M) (x : F) : M := coefficients.foldr (fun c rest => c + x • rest) 0

@[simp] theorem evalAt_nil (x : F) : evalAt ([] : List M) x = 0 := rfl

@[simp] theorem evalAt_cons (c : M) (rest : List M)
    (x : F) : evalAt (c :: rest) x = c + x • evalAt rest x := rfl

theorem evalAt_zero (c : M) (rest : List M) : evalAt (c :: rest) (0 : F) = c := by
  rw [evalAt_cons, zero_smul, add_zero]

theorem evalAt_eq_sum (coefficients : List M) (x : F) :
    evalAt coefficients x = ((List.range coefficients.length).map fun k =>
      x ^ k • coefficients.getD k 0).sum := by
  induction coefficients with
  | nil => rfl
  | cons c rest ih =>
    have shifted : ((List.range rest.length).map fun k => x ^ (k + 1) • rest.getD k 0).sum =
        x • evalAt rest x := by
      rw [ih, List.smul_sum, List.map_map]
      refine congrArg List.sum (List.map_congr_left ?_)
      intro k _
      rw [Function.comp_apply, smul_smul, ← pow_succ']
    rw [evalAt_cons, ← shifted, List.length_cons, List.range_succ_eq_map, List.map_cons,
      List.sum_cons, List.map_map, pow_zero, one_smul, List.getD_cons_zero]
    rfl

theorem evalAt_map_smul (coefficients : List F) (P : M) (x : F) :
    evalAt (coefficients.map (· • P)) x = evalAt coefficients x • P := by
  induction coefficients with
  | nil => simp
  | cons c rest ih => rw [map_cons, evalAt_cons, evalAt_cons, ih, add_smul, smul_assoc]

end Evaluation

section Recombination

variable {F : Type*} [Field F]

noncomputable def polynomial (coefficients : List F) : F[X] :=
    coefficients.foldr (fun c rest => C c + X * rest) 0

private theorem eval_polynomial (coefficients : List F) (x : F) :
    (polynomial coefficients).eval x = evalAt coefficients x := by
  induction coefficients with
  | nil => simp [polynomial]
  | cons c rest ih =>
    rw [polynomial, foldr_cons, ← polynomial, eval_add, eval_mul, eval_C, eval_X, ih, evalAt_cons,
      smul_eq_mul]

private theorem degree_polynomial_lt (coefficients : List F) :
    (polynomial coefficients).degree < coefficients.length := by
  induction coefficients with
  | nil => simp [polynomial]
  | cons c rest ih =>
    rw [polynomial, foldr_cons, ← polynomial, length_cons, Nat.cast_succ]
    refine (degree_add_le _ _).trans_lt (max_lt ?_ ?_)
    · exact degree_C_le.trans_lt (by exact_mod_cast Nat.succ_pos rest.length)
    · rw [degree_mul, degree_X, add_comm]
      exact WithBot.add_lt_add_right (by decide) ih

variable [DecidableEq F]

def weight (nodes : List F) (x : F) : F := ((nodes.filter (· ≠ x)).map fun y => y / (y - x)).prod

private theorem weight_eq_eval_basis (nodup : nodes.Nodup) (x : F) :
    weight nodes x = (Lagrange.basis nodes.toFinset id x).eval 0 := by
  have erased : nodes.toFinset.erase x = (nodes.filter (· ≠ x)).toFinset := by
    ext y
    simp [and_comm]
  rw [Lagrange.basis, eval_prod, erased, prod_toFinset _ (nodup.filter _), weight]
  refine congrArg prod (map_congr_left ?_)
  intro y _
  rw [Lagrange.basisDivisor, eval_mul, eval_C, eval_sub, eval_X, eval_C, id, id, zero_sub, mul_neg,
    ← neg_mul, ← inv_neg, neg_sub, mul_comm, div_eq_mul_inv]

private theorem recombine {nodes coefficients : List F} (nodup : nodes.Nodup)
    (enough : coefficients.length ≤ nodes.length) :
    (nodes.map fun x => weight nodes x * evalAt coefficients x).sum =
      evalAt coefficients (0 : F) := by
  have degree : (polynomial coefficients).degree < nodes.toFinset.card := by
    rw [List.toFinset_card_of_nodup nodup]
    exact (degree_polynomial_lt coefficients).trans_le (by exact_mod_cast enough)
  have interpolated := congrArg (eval 0) (Lagrange.eq_interpolate (v := id) (Set.injOn_id _) degree)
  rw [Lagrange.interpolate_apply, eval_finsetSum, List.sum_toFinset _ nodup,
    eval_polynomial] at interpolated
  rw [interpolated]
  refine congrArg List.sum (List.map_congr_left ?_)
  intro x _
  rw [weight_eq_eval_basis nodup, eval_mul, eval_C, id, eval_polynomial, mul_comm]

private theorem recombine_sum {nodes : List F} {dealers : List (List F)} (nodup : nodes.Nodup)
    (enough : ∀ coefficients ∈ dealers, coefficients.length ≤ nodes.length) :
    (nodes.map fun x => weight nodes x * (dealers.map fun coefficients =>
      evalAt coefficients x).sum).sum =
      (dealers.map fun coefficients => evalAt coefficients (0 : F)).sum := by
  induction dealers with
  | nil => simp
  | cons coefficients rest ih =>
    rw [forall_mem_cons] at enough
    simp only [map_cons, sum_cons, mul_add, sum_map_add]
    rw [recombine nodup enough.1, ih enough.2]

variable {M : Type*} [AddCommGroup M] [Module F M]

theorem recombine_smul {nodes : List F} {dealers : List (List F)} (nodup : nodes.Nodup)
    (enough : ∀ coefficients ∈ dealers, coefficients.length ≤ nodes.length) (P : M) :
    (nodes.map fun x => weight nodes x • (dealers.map fun coefficients =>
      evalAt coefficients x).sum • P).sum =
      (dealers.map fun coefficients => evalAt coefficients (0 : F)).sum • P := by
  rw [← recombine_sum nodup enough, List.sum_smul, List.map_map]
  refine congrArg List.sum (List.map_congr_left ?_)
  intro x _
  exact smul_smul _ _ _

end Recombination

end SecretSharing
