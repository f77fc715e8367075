import AliceNet.Library.Hyperbola
import AliceNet.Library.NearSqrt
import AliceNet.Library.Word

/-! The bonding curve of the utility token and its inverse. -/

namespace AliceNet.Bridge.Sigmoid

open Hyperbola NearSqrt Outcome Word

def P_A : ℕ := 200
def P_B : ℕ := 2500 * 10 ^ 18
def P_C : ℕ := 5611050234958650739260304 + 125 * 10 ^ 39
def P_D : ℕ := 4
def P_S : ℕ := 2524876234590519489452

def P_INV_C_1 : ℕ := P_A * ((P_A + P_D) * P_S + P_A * P_B)
def P_INV_C_2 : ℕ := P_A + P_D
def P_INV_C_3 : ℕ := P_D * (2 * P_A + P_D)
def P_INV_D_0 : ℕ := ((P_A + P_D) * P_S + P_A * P_B) ^ 2
def P_INV_D_1 : ℕ := 2 * (P_A * P_S + (P_A + P_D) * P_B)

def narrow (state : ℕ × ℕ) (width : ℕ) : ℕ × ℕ :=
  if 1 <<< width ≤ state.2 then (state.1 + width, state.2 >>> width) else state

/-- The last `if`, which leaves `result` as it is. -/
def lastBit (state : ℕ × ℕ) : ℕ :=
  if 1 <<< 1 ≤ state.2 then state.1 + 1 else state.1

def bitLength (x : ℕ) : ℕ :=
  lastBit ([128, 64, 32, 16, 8, 4, 2].foldl narrow (1, x))

/-- `(result << shift) + (m >> drop) / result` -/
def refine (m shift drop result : ℕ) : ℕ :=
  ((result <<< shift) % 2 ^ 256 + (m >>> drop) / result) % 2 ^ 256

def sqrt (x : ℕ) : ℕ :=
  if x ≤ 1 then x
  else if (1 <<< 128 - 1) ^ 2 ≤ x then 1 <<< 128 - 1
  else
    let e := (256 - bitLength x) >>> 1
    let m := (x <<< (2 * e)) % 2 ^ 256
    let result := (1 + m >>> 254) % 2 ^ 256
    let result := refine m 1 251 result
    let result := refine m 3 245 result
    let result := refine m 7 233 result
    let result := refine m 15 209 result
    let result := refine m 31 161 result
    let result := refine m 63 65 result
    let result := result >>> e
    if result * result % 2 ^ 256 ≤ x then result else result - 1

section

variable {ε : Type} (overflow : ε)

def safeAbsSub (a b : ℕ) : Except ε ℕ := Word.sub overflow (max a b) (min a b)

def p (t : ℕ) : Except ε ℕ := do
  let line ← Word.add 256 overflow (← Word.mul 256 overflow (P_A + P_D) t) (P_A * P_S)
  let distance ← safeAbsSub overflow P_B t
  let sum ← Word.add 256 overflow (← Word.mul 256 overflow distance distance) P_C
  Word.sub overflow line (sqrt (← Word.mul 256 overflow (P_A ^ 2) sum))

def pInverse (m : ℕ) : Except ε ℕ := do
  let line ← Word.mul 256 overflow P_INV_C_2 m
  let plus ← Word.add 256 overflow (← Word.mul 256 overflow m m) P_INV_D_0
  let difference ← Word.sub overflow plus (← Word.mul 256 overflow P_INV_D_1 m)
  let sum ← Word.add 256 overflow line (sqrt (← Word.mul 256 overflow (P_A ^ 2) difference))
  pure ((← Word.sub overflow sum P_INV_C_1) / P_INV_C_3)

end

structure Narrowed (x width : ℕ) (state : ℕ × ℕ) : Prop where
  positive : 1 ≤ state.1
  leading : state.2 = x / 2 ^ (state.1 - 1)
  small : state.2 < 2 ^ width
  nonzero : 1 ≤ state.2

theorem Narrowed.narrow (narrowed : Narrowed x wide state) (width : ℕ) (double : wide = 2 * width) :
    Narrowed x width (narrow state width) := by
  obtain ⟨positive, leading, small, nonzero⟩ := narrowed
  rw [double] at small
  have power : (1 : ℕ) <<< width = 2 ^ width := by simp [Nat.shiftLeft_eq]
  unfold Sigmoid.narrow
  rw [power]
  split
  · rename_i large
    rw [Nat.shiftRight_eq_div_pow]
    refine ⟨by simp only; omega, ?_, ?_, ?_⟩
    · simp only
      rw [leading, Nat.div_div_eq_div_mul, ← pow_add]
      congr 2
      omega
    · rw [Nat.div_lt_iff_lt_mul (by positivity), ← pow_add, ← two_mul]
      exact small
    · exact Nat.div_pos large (by positivity)
  · exact ⟨positive, leading, by omega, nonzero⟩

theorem Narrowed.lastBit (narrowed : Narrowed x 2 state) :
    1 ≤ lastBit state ∧ 2 ^ (lastBit state - 1) ≤ x ∧ x < 2 ^ lastBit state := by
  obtain ⟨e, result⟩ := state
  obtain ⟨positive, leading, small, nonzero⟩ := narrowed
  simp only at positive leading small nonzero
  obtain ⟨e, rfl⟩ := Nat.exists_eq_add_of_le' positive
  have unit : 0 < 2 ^ e := by positivity
  have below : result * 2 ^ e ≤ x := leading ▸ Nat.div_mul_le_self x _
  have above : x < 2 ^ e * (result + 1) := leading ▸ Nat.lt_mul_div_succ x unit
  unfold Sigmoid.lastBit
  simp only [Nat.shiftLeft_eq, one_mul, pow_one]
  split
  · rename_i two
    refine ⟨by omega, ?_, ?_⟩
    · rw [Nat.add_sub_cancel, pow_succ]
      nlinarith
    · rw [pow_succ, pow_succ]
      nlinarith
  · rename_i one
    obtain rfl : result = 1 := by omega
    refine ⟨by omega, ?_, ?_⟩
    · rw [Nat.add_sub_cancel]
      omega
    · rw [pow_succ]
      omega

private theorem bitLength_spec (nonzero : 1 ≤ x) (word : x < 2 ^ 256) :
    1 ≤ bitLength x ∧ 2 ^ (bitLength x - 1) ≤ x ∧ x < 2 ^ bitLength x := by
  have start : Narrowed x 256 (1, x) := ⟨le_rfl, by simp, word, nonzero⟩
  have narrowed :=
    ((((((start.narrow 128 rfl).narrow 64 rfl).narrow 32 rfl).narrow 16 rfl).narrow 8 rfl).narrow
    4 rfl).narrow 2 rfl
  unfold bitLength
  simpa only [List.foldl_cons, List.foldl_nil] using narrowed.lastBit

private theorem scaled_bounds (nonzero : 1 ≤ x) (word : x < 2 ^ 256) :
    2 ^ 254 ≤ x * 4 ^ ((256 - bitLength x) / 2) ∧ x * 4 ^ ((256 - bitLength x) / 2) < 2 ^ 256 := by
  obtain ⟨positive, low, high⟩ := bitLength_spec nonzero word
  generalize bitLength x = length at positive low high ⊢
  have bound : length ≤ 256 := by
    by_contra long
    have larger : 2 ^ 256 ≤ 2 ^ (length - 1) := Nat.pow_le_pow_right (by norm_num) (by omega)
    exact absurd (larger.trans low) (not_le.mpr word)
  obtain ⟨e, half⟩ : ∃ e, e = (256 - length) / 2 := ⟨_, rfl⟩
  rw [← half]
  have four : (4 : ℕ) ^ e = 2 ^ (2 * e) := by
    rw [pow_mul]
    norm_num
  constructor
  · calc 2 ^ 254 ≤ 2 ^ (length - 1 + 2 * e) := Nat.pow_le_pow_right (by norm_num) (by omega)
      _ = 2 ^ (length - 1) * 4 ^ e := by rw [pow_add, four]
      _ ≤ x * 4 ^ e := Nat.mul_le_mul_right _ low
  · calc x * 4 ^ e < 2 ^ length * 4 ^ e := Nat.mul_lt_mul_of_pos_right high (by positivity)
      _ = 2 ^ (length + 2 * e) := by rw [pow_add, four]
      _ ≤ 2 ^ 256 := Nat.pow_le_pow_right (by norm_num) (by omega)

theorem near_le (near : Near m unit a) (word : m < 2 ^ 256) (unitPos : 0 < unit) : a ≤ 2 ^ 128 := by
  by_contra large
  have root : (2 ^ 128) ^ 2 ≤ (a - 1) ^ 2 := Nat.pow_le_pow_left (by omega) 2
  have scaled : (a - 1) ^ 2 ≤ (a - 1) ^ 2 * unit := Nat.le_mul_of_pos_right _ unitPos
  have square : (2 ^ 128) ^ 2 = 2 ^ 256 := by norm_num
  exact absurd (near.1.trans word) (not_lt.mpr (square ▸ root.trans scaled))

private theorem refine_near (near : Near m (4 ^ i) result) (word : m < 2 ^ 256)
    (large : 2 ^ k ≤ result) (short : k < 128) (digits : i = j + k + 1)
    (position : drop = 2 * j + k + 2) : Near m (4 ^ j) (refine m k drop result) := by
  subst digits position
  have four : (4 : ℕ) ^ j = 2 ^ (2 * j) := by
    rw [pow_mul]
    norm_num
  have units : 4 * (2 ^ k) ^ 2 * 4 ^ j = 4 ^ (j + k + 1) := by
    rw [← pow_mul, mul_comm k 2, pow_mul, pow_succ, pow_add]
    ring
  have step : Near m (4 ^ j) (2 ^ k * result + m / (4 * 2 ^ k * 4 ^ j * result)) :=
    Near.step (units ▸ near) (by positivity) (by positivity) large
  have quotient : m >>> (2 * j + k + 2) / result = m / (4 * 2 ^ k * 4 ^ j * result) := by
    rw [Nat.shiftRight_eq_div_pow, Nat.div_div_eq_div_mul, four, pow_add, pow_add]
    congr 1
    ring
  have shifted : result * 2 ^ k < 2 ^ 256 := by
    calc result * 2 ^ k ≤ 2 ^ 128 * 2 ^ k :=
      Nat.mul_le_mul_right _ (near_le near word (by positivity))
      _ = 2 ^ (128 + k) := (pow_add _ _ _).symm
      _ < 2 ^ 256 := Nat.pow_lt_pow_right (by norm_num) (by omega)
  have same : refine m k (2 * j + k + 2) result = 2 ^ k * result +
      m / (4 * 2 ^ k * 4 ^ j * result) := by
    rw [refine, quotient, Nat.shiftLeft_eq, Nat.mod_eq_of_lt shifted, mul_comm result]
    exact Nat.mod_eq_of_lt ((near_le step word (by positivity)).trans_lt (by norm_num))
  rw [same]
  exact step

private theorem near_ge (near : Near m (4 ^ j) a) (low : 2 ^ 254 ≤ m) (total : j + k = 127) :
    2 ^ k ≤ a := by
  have leading : 2 ^ 254 = (2 ^ k) ^ 2 * 4 ^ j := by
    have four : (4 : ℕ) ^ j = 2 ^ (2 * j) := by
      rw [pow_mul]
      norm_num
    rw [four, ← pow_mul, ← pow_add]
    congr 1
    omega
  have squares : (2 ^ k) ^ 2 * 4 ^ j < (a + 1) ^ 2 * 4 ^ j := leading ▸ low.trans_lt near.2
  have roots := lt_of_pow_lt_pow_left₀ 2 (by positivity) (Nat.lt_of_mul_lt_mul_right squares)
  omega

private theorem first_near (low : 2 ^ 254 ≤ m) (word : m < 2 ^ 256) :
    Near m (4 ^ 126) (1 + m >>> 254) := by
  rw [Nat.shiftRight_eq_div_pow]
  have below : m / 2 ^ 254 * 2 ^ 254 ≤ m := Nat.div_mul_le_self m _
  have above : m < 2 ^ 254 * (m / 2 ^ 254 + 1) := Nat.lt_mul_div_succ m (by positivity)
  have bits : 1 ≤ m / 2 ^ 254 ∧ m / 2 ^ 254 < 4 :=
    ⟨Nat.div_pos low (by positivity), by rw [Nat.div_lt_iff_lt_mul (by positivity)]; exact word⟩
  generalize m / 2 ^ 254 = t at below above bits ⊢
  have unit : (2 : ℕ) ^ 254 = 4 * 4 ^ 126 := by norm_num
  rw [unit] at below above
  obtain ⟨one, four⟩ := bits
  interval_cases t <;> constructor <;> simp <;> omega

private theorem mul_self_lt_of_near (near : Near (x * 4 ^ e) 1 a) (small : x < (2 ^ 128 - 1) ^ 2) :
    a / 2 ^ e * (a / 2 ^ e) < 2 ^ 256 := by
  have below : a / 2 ^ e ≤ 2 ^ 128 - 1 := by
    have root := sqrt_of_near near
    have bound : Nat.sqrt x < 2 ^ 128 - 1 := Nat.sqrt_lt'.mpr small
    split at root <;> omega
  calc a / 2 ^ e * (a / 2 ^ e) ≤ (2 ^ 128 - 1) * (2 ^ 128 - 1) := Nat.mul_le_mul below below
    _ < 2 ^ 256 := by norm_num

theorem sqrt_eq (word : x < 2 ^ 256) : sqrt x = Nat.sqrt x := by
  have full : (1 : ℕ) <<< 128 - 1 = 2 ^ 128 - 1 := by norm_num [Nat.shiftLeft_eq]
  rw [sqrt, full]
  split
  · rename_i tiny
    interval_cases x <;> simp
  · rename_i positive
    split
    · rename_i large
      refine Nat.eq_sqrt.mpr ⟨by rw [← sq]; exact large, ?_⟩
      calc x < 2 ^ 256 := word
        _ = (2 ^ 128 - 1 + 1) * (2 ^ 128 - 1 + 1) := by norm_num
    · rename_i small
      obtain ⟨low, high⟩ := scaled_bounds (show 1 ≤ x by omega) word
      have half : (256 - bitLength x) >>> 1 =
        (256 - bitLength x) / 2 := by simp [Nat.shiftRight_eq_div_pow]
      have four : ∀ e, (2 : ℕ) ^ (2 * e) = 4 ^ e := fun e => by
        rw [pow_mul]
        norm_num
      simp only [half, Nat.shiftLeft_eq x, four, Nat.mod_eq_of_lt high]
      generalize (256 - bitLength x) / 2 = e at low high ⊢
      have start := first_near low high
      have fits : 1 + (x * 4 ^ e) >>> 254 < 2 ^ 256 :=
        (near_le start high (by positivity)).trans_lt (by norm_num)
      rw [Nat.mod_eq_of_lt fits]
      have near := refine_near (k := 1) start high (near_ge start low rfl) (by norm_num) rfl rfl
      have near := refine_near (k := 3) near high (near_ge near low rfl) (by norm_num) rfl rfl
      have near := refine_near (k := 7) near high (near_ge near low rfl) (by norm_num) rfl rfl
      have near := refine_near (k := 15) near high (near_ge near low rfl) (by norm_num) rfl rfl
      have near := refine_near (k := 31) near high (near_ge near low rfl) (by norm_num) rfl rfl
      have near : Near (x * 4 ^ e) (4 ^ 0) _ :=
        refine_near (k := 63) near high (near_ge near low rfl) (by norm_num) rfl rfl
      rw [Nat.shiftRight_eq_div_pow, Nat.mod_eq_of_lt (mul_self_lt_of_near near (not_le.mp small))]
      exact sqrt_of_near near

/-- The wrapping arithmetic of `_sqrt` never loses anything: the result is the exact integer root of
every word. -/
theorem sqrt_exact (x : ℕ) (word : x < 2 ^ 256) :
    sqrt x * sqrt x ≤ x ∧ x < (sqrt x + 1) * (sqrt x + 1) := by
  rw [sqrt_eq word]
  exact ⟨Nat.sqrt_le x, Nat.lt_succ_sqrt x⟩

theorem sqrt_exact_largest :
    2 ^ 256 - 1 < 2 ^ 256 ∧ sqrt (2 ^ 256 - 1) * sqrt (2 ^ 256 - 1) ≤ 2 ^ 256 - 1 ∧
    2 ^ 256 - 1 < (sqrt (2 ^ 256 - 1) + 1) * (sqrt (2 ^ 256 - 1) + 1) :=
  ⟨by norm_num, sqrt_exact (2 ^ 256 - 1) (by norm_num)⟩

def radicand (t : ℕ) : ℕ := P_A ^ 2 * ((max P_B t - min P_B t) * (max P_B t - min P_B t) + P_C)

def curve (t : ℕ) : ℤ := (P_A + P_D) * t + P_A * P_S - Nat.sqrt (radicand t)

def inverse (m : ℕ) : ℕ :=
  (P_INV_C_2 * m + Nat.sqrt (P_A ^ 2 * (m * m + P_INV_D_0 - P_INV_D_1 * m)) - P_INV_C_1) / P_INV_C_3

theorem p_ok {overflow : ε} (ran : p overflow t = .ok n) : (n : ℤ) = curve t := by
  simp only [p, safeAbsSub, bind_ok_iff, add_ok_iff, mul_ok_iff, sub_ok_iff] at ran
  obtain ⟨_, ⟨_, rfl⟩, _, ⟨_, rfl⟩, _, ⟨_, rfl⟩, _, ⟨_, rfl⟩, _, ⟨_, rfl⟩, _, ⟨bound, rfl⟩, le,
    rfl⟩ := ran
  rw [sqrt_eq bound] at le ⊢
  rw [curve, radicand, Nat.cast_sub le]
  push_cast
  ring

theorem pInverse_ok {overflow : ε} (ran : pInverse overflow m = .ok t) : t = inverse m := by
  simp only [pInverse, ok_iff, add_ok_iff, mul_ok_iff, sub_ok_iff] at ran
  obtain ⟨_, ⟨_, rfl⟩, _, ⟨_, rfl⟩, _, ⟨_, rfl⟩, _, ⟨_, rfl⟩, _, ⟨_, rfl⟩, _, ⟨bound, rfl⟩, _,
    ⟨_, rfl⟩, _, ⟨_, rfl⟩, rfl⟩ := ran
  rw [sqrt_eq bound]
  rfl

theorem cast_radicand (t : ℕ) : (radicand t : ℤ) = 40000 * ((t - P_B) * (t - P_B) + P_C) := by
  unfold radicand
  rcases le_total P_B t with le | le
  · rw [max_eq_right le, min_eq_left le]
    push_cast [le]
    norm_num [P_A]
  · rw [max_eq_left le, min_eq_right le]
    push_cast [le]
    norm_num [P_A]
    ring

theorem int_le_sqrt (u : ℤ) (n : ℕ) : u ≤ Nat.sqrt n ↔ u ≤ 0 ∨ u * u ≤ n := by
  rcases le_total u 0 with nonpos | nonneg
  · exact ⟨fun _ => .inl nonpos, fun _ => nonpos.trans (by positivity)⟩
  · obtain ⟨k, rfl⟩ := Int.eq_ofNat_of_zero_le nonneg
    have square : (k ≤ Nat.sqrt n) ↔ k * k ≤ n := Nat.le_sqrt
    constructor
    · exact fun le => .inr (by exact_mod_cast square.mp (by exact_mod_cast le))
    · rintro (zero | le)
      · exact zero.trans (by positivity)
      · exact_mod_cast square.mpr (by exact_mod_cast le)

private theorem sides_iff (u d c : ℤ) (wide : 0 ≤ c) :
    (u ≤ 0 ∨ u * u ≤ 40000 * (d * d + c)) ↔
      (204 * u - 40000 * d ≤ 0 ∨
        (204 * u - 40000 * d) * (204 * u - 40000 * d) ≤
          40000 * ((204 * d - u) * (204 * d - u) + 1616 * c)) := by
  constructor
  · rintro (nonpos | le)
    · by_cases sign : 204 * u - 40000 * d ≤ 0
      · exact .inl sign
      · exact .inr (by nlinarith)
    · exact .inr (by linarith)
  · rintro (nonpos | le)
    · by_cases sign : u ≤ 0
      · exact .inl sign
      · exact .inr (by nlinarith)
    · exact .inr (by linarith)

theorem disc_eq (m : ℕ) : (m * m + P_INV_D_0 : ℤ) - P_INV_D_1 * m =
    (m - (200 * P_S + 204 * P_B)) * (m - (200 * P_S + 204 * P_B)) + 1616 * P_C := by
  norm_num [P_INV_D_0, P_INV_D_1, P_S, P_B, P_C, P_A, P_D]
  ring

theorem disc_le (m : ℕ) : P_INV_D_1 * m ≤ m * m + P_INV_D_0 := by
  zify
  have := mul_self_nonneg ((m : ℤ) - (200 * P_S + 204 * P_B))
  linarith [disc_eq m, Int.natCast_nonneg P_C]

theorem cast_disc (m : ℕ) : ((P_A ^ 2 * (m * m + P_INV_D_0 - P_INV_D_1 * m) : ℕ) : ℤ) =
    40000 * ((m - (200 * P_S + 204 * P_B)) * (m - (200 * P_S + 204 * P_B)) + 1616 * P_C) := by
  push_cast [disc_le m]
  rw [disc_eq]
  norm_num [P_A]

theorem disc_lt_iff (m : ℕ) : P_A ^ 2 * (m * m + P_INV_D_0 - P_INV_D_1 * m) < 2 ^ 256 ↔
    40000 * ((m - (200 * P_S + 204 * P_B)) * (m - (200 * P_S + 204 * P_B)) + 1616 * P_C) <
      (2 : ℤ) ^ 256 := by
  rw [← cast_disc]
  exact_mod_cast Iff.rfl

theorem lt_of_disc (bound : P_A ^ 2 * (m * m + P_INV_D_0 - P_INV_D_1 * m) < 2 ^ 256) :
    m < 2 ^ 122 := by
  by_contra! large
  rw [disc_lt_iff] at bound
  zify at large
  norm_num [P_S, P_B, P_C] at bound large
  nlinarith

theorem disc_mono (le : m ≤ n) (bound : P_A ^ 2 * (n * n + P_INV_D_0 - P_INV_D_1 * n) < 2 ^ 256) :
    P_A ^ 2 * (m * m + P_INV_D_0 - P_INV_D_1 * m) < 2 ^ 256 := by
  rw [disc_lt_iff] at bound ⊢
  zify at le
  norm_num [P_S, P_B, P_C] at bound ⊢
  -- left of twice its vertex the parabola is below its value at zero
  rcases le_total (m : ℤ) 2029950493836207795780800 with low | high
  · nlinarith
  · nlinarith

theorem disc_lt (small : m < 2 ^ 120) : P_A ^ 2 * (m * m + P_INV_D_0 - P_INV_D_1 * m) < 2 ^ 256 :=
  disc_mono small.le (by norm_num [P_INV_D_0, P_INV_D_1, P_S, P_B, P_A, P_D])

private theorem curve_le_iff (t : ℕ) (m : ℤ) : curve t ≤ m ↔
    204 * t + 200 * P_S - m ≤ 0 ∨
      (204 * t + 200 * P_S - m) * (204 * t + 200 * P_S - m) ≤
        40000 * ((t - P_B) * (t - P_B) + P_C) := by
  rw [← cast_radicand, ← int_le_sqrt]
  norm_num [curve, P_A, P_D]
  constructor <;> intro le <;> linarith

theorem curve_le_iff_sqrt (t m : ℕ) : curve t ≤ m ↔ (P_INV_C_3 * t + P_INV_C_1 : ℤ) ≤
      P_INV_C_2 * m + Nat.sqrt (P_A ^ 2 * (m * m + P_INV_D_0 - P_INV_D_1 * m)) := by
  rw [curve_le_iff, sides_iff _ _ _ (Int.natCast_nonneg P_C), ← sub_le_iff_le_add', int_le_sqrt,
    cast_disc]
  have center : 204 * ((t : ℤ) - P_B) - (204 * t + 200 * P_S - m) =
    m - (200 * P_S + 204 * P_B) := by ring
  have numerator : 204 * (204 * (t : ℤ) + 200 * P_S - m) - 40000 * (t - P_B) =
      P_INV_C_3 * t + P_INV_C_1 - P_INV_C_2 * m := by
    norm_num [P_INV_C_1, P_INV_C_2, P_INV_C_3, P_S, P_B, P_A, P_D]
    ring
  rw [center, numerator]

theorem curve_zero : curve 0 = 0 := by
  have root : radicand 0 = (200 * P_S) * (200 * P_S) := by norm_num [radicand, P_A, P_B, P_C, P_S]
  rw [curve, root, Nat.sqrt_eq]
  norm_num [P_A]

theorem curve_le_iff_le_inverse (t m : ℕ) : curve t ≤ m ↔ t ≤ inverse m := by
  have start := (curve_le_iff_sqrt 0 m).mp (by rw [curve_zero]; positivity)
  rw [curve_le_iff_sqrt, inverse]
  rw [Nat.le_div_iff_mul_le (by norm_num [P_INV_C_3, P_A, P_D])]
  norm_cast at start ⊢
  rw [mul_zero, zero_add] at start
  rw [Nat.le_sub_iff_add_le start, mul_comm]

theorem sqrt_radicand (t : ℕ) : √(radicand t : ℝ) = 200 * branch P_C (t - P_B) := by
  have cast : (radicand t : ℝ) = 200 ^ 2 * ((t - P_B) ^ 2 + P_C) := by
    have := cast_radicand t
    rify at this
    rw [this]
    ring
  rw [cast, Real.sqrt_mul (by positivity), Real.sqrt_sq (by positivity), branch]

/-- The code's curve before its root is rounded down. -/
noncomputable def smooth (t : ℕ) : ℝ := 204 * t + 200 * P_S - 200 * branch P_C (t - P_B)

theorem smooth_le_curve (t : ℕ) : smooth t ≤ curve t := by
  have le := Real.nat_sqrt_le_real_sqrt (a := radicand t)
  rw [sqrt_radicand] at le
  rw [smooth, curve]
  norm_num [P_A, P_D]
  linarith

theorem curve_lt_smooth (t : ℕ) : curve t < smooth t + 1 := by
  have lt := Real.real_sqrt_lt_nat_sqrt_succ (a := radicand t)
  rw [sqrt_radicand] at lt
  rw [smooth, curve]
  norm_num [P_A, P_D]
  linarith

theorem smooth_add (t x : ℕ) :
    smooth (t + x) = 204 * (t + x) + 200 * P_S - 200 * branch P_C (t - P_B + x) := by
  rw [smooth, Nat.cast_add, add_sub_right_comm (t : ℝ)]

theorem smooth_rise (t x : ℕ) : smooth t + 4 * x ≤ smooth (t + x) := by
  have rise := rise_le_step (c := P_C) (Nat.cast_nonneg _) ((t : ℝ) - P_B) (Nat.cast_nonneg x)
  rw [smooth_add, smooth]
  linarith

private theorem P_C_pos : (0 : ℝ) < P_C := by norm_num [P_C]

private theorem sqrt_P_C : (20 * (17 * 10 ^ 18 + 1) : ℝ) ≤ √P_C := by
  refine Real.le_sqrt_of_sq_le ?_
  norm_num [P_C]

private theorem smooth_gain (t p x : ℕ) (near : t ≤ p + (17 * 10 ^ 18 + 1)) :
    smooth (p + x) - smooth p ≤ smooth (t + x) - smooth t + 10 * x := by
  have step : (0 : ℝ) ≤ x := Nat.cast_nonneg x
  rw [smooth_add, smooth_add, smooth, smooth]
  rcases le_total t p with le | le
  · have rise := rise_mono (x := x) P_C_pos (z := (t : ℝ) - P_B) (w := (p : ℝ) - P_B) (by gcongr)
      step
    linarith
  · have rise := rise_le (x := x) P_C_pos (z := (p : ℝ) - P_B) (w := (t : ℝ) - P_B) (by gcongr) step
    have apart : (t : ℝ) - P_B - (p - P_B) ≤ 17 * 10 ^ 18 + 1 := by
      rify at near
      linarith
    have positive : (0 : ℝ) < √P_C := Real.sqrt_pos.mpr P_C_pos
    have curvature : x / √P_C * ((t : ℝ) - P_B - (p - P_B)) ≤ x / 20 :=
      calc x / √P_C * ((t : ℝ) - P_B - (p - P_B)) ≤ x / √P_C * (17 * 10 ^ 18 + 1) := by gcongr
        _ ≤ x / √P_C * (√P_C / 20) := by gcongr; linarith [sqrt_P_C]
        _ = x / 20 := by field_simp
    linarith

theorem inverse_add_le {n : ℕ} (short : inverse m ≤ pool + 17 * 10 ^ 18)
    (minted : (n : ℤ) = curve (pool + x) - curve pool) : inverse (m + n) ≤ inverse m + 4 * x := by
  rcases Nat.eq_zero_or_pos x with rfl | positive
  · rw [add_zero, sub_self, Int.natCast_eq_zero] at minted
    rw [minted, add_zero, mul_zero, add_zero]
  · by_contra! more
    have upper := (curve_le_iff_le_inverse (inverse m + 1 + x + 3 * x) (m + n)).mpr (by omega)
    have lower := (curve_le_iff_le_inverse (inverse m + 1) m).not.mpr (by omega)
    have gain := smooth_gain (inverse m + 1) pool x (by omega)
    have rise := smooth_rise (inverse m + 1 + x) (3 * x)
    generalize inverse m + 1 = t at *
    have between : curve (t + x + 3 * x) + 1 ≤ curve t + (curve (pool + x) - curve pool) := by
      push_cast at upper
      linarith
    have := smooth_le_curve (t + x + 3 * x)
    have := curve_lt_smooth t
    have := curve_lt_smooth (pool + x)
    have := smooth_le_curve pool
    have one : 1 ≤ x := positive
    rify at between one
    push_cast at rise
    linarith

theorem curve_strictMono : StrictMono curve := by
  refine strictMono_nat_of_lt_succ fun t => ?_
  have rise := smooth_rise t 1
  have above := smooth_le_curve (t + 1)
  have below := curve_lt_smooth t
  have apart : (curve t : ℝ) < curve (t + 1) := by
    push_cast at rise
    linarith
  exact_mod_cast apart

theorem four_mul_le_curve (t : ℕ) : 4 * (t : ℤ) ≤ curve t := by
  have rise := smooth_rise 0 t
  have above := smooth_le_curve (0 + t)
  have start := curve_lt_smooth 0
  rw [curve_zero] at start
  rw [Nat.zero_add] at rise above
  have lower : (4 * t : ℝ) - 1 < curve t := by
    push_cast at start
    linarith
  have : 4 * (t : ℤ) - 1 < curve t := by exact_mod_cast lower
  omega

private theorem inverse_mono (le : m ≤ n) : inverse m ≤ inverse n := by
  have lower := (curve_le_iff_le_inverse (inverse m) m).mpr le_rfl
  exact (curve_le_iff_le_inverse _ n).mp (lower.trans (by exact_mod_cast le))

theorem inverse_of_curve {m : ℕ} (reached : curve t = m) : inverse m = t := by
  refine le_antisymm ?_ ((curve_le_iff_le_inverse t m).mp reached.le)
  have lower := (curve_le_iff_le_inverse (inverse m) m).mpr le_rfl
  exact curve_strictMono.le_iff_le.mp (reached ▸ lower)

section

variable {overflow : ε}

theorem p_succeeds (small : t < 2 ^ 120) : ∃ n, p overflow t = .ok n := by
  have distance : max P_B t - min P_B t < 2 ^ 120 := by
    have : P_B < 2 ^ 120 := by norm_num [P_B]
    omega
  have square := Nat.mul_lt_mul'' distance distance
  have sum : (max P_B t - min P_B t) * (max P_B t - min P_B t) + P_C < 2 ^ 240 + 2 ^ 160 := by
    have : P_C < 2 ^ 160 := by norm_num [P_C]
    omega
  have bound : radicand t < 2 ^ 256 := by
    exact (Nat.mul_lt_mul_of_pos_left sum (by norm_num [P_A])).trans (by norm_num [P_A])
  have positive := four_mul_le_curve t
  rw [curve] at positive
  have le : Nat.sqrt (radicand t) ≤ (P_A + P_D) * t + P_A * P_S := by
    zify
    linarith [Int.natCast_nonneg t]
  simp only [p, safeAbsSub, bind_ok_iff, add_ok_iff, mul_ok_iff, sub_ok_iff]
  refine ⟨_, _, ⟨?_, rfl⟩, _, ⟨?_, rfl⟩, _, ⟨by omega, rfl⟩, _, ⟨?_, rfl⟩, _, ⟨?_, rfl⟩, _,
    ⟨bound, rfl⟩, ?_, rfl⟩
  · norm_num [P_A, P_D]
    omega
  · norm_num [P_A, P_D, P_S]
    omega
  · omega
  · omega
  · exact (sqrt_eq bound).trans_le le

theorem pInverse_succeeds_iff :
    (∃ t, pInverse overflow m = .ok t) ↔ P_A ^ 2 * (m * m + P_INV_D_0 - P_INV_D_1 * m) <
      2 ^ 256 := by
  simp only [pInverse, ok_iff, add_ok_iff, mul_ok_iff, sub_ok_iff]
  constructor
  · rintro ⟨_, _, _, _, ⟨_, rfl⟩, _, ⟨_, rfl⟩, _, ⟨_, rfl⟩, _, ⟨_, rfl⟩, _, ⟨bound, _⟩, _⟩
    exact bound
  · intro bound
    have small := lt_of_disc bound
    have root : Nat.sqrt (P_A ^ 2 * (m * m + P_INV_D_0 - P_INV_D_1 * m)) < 2 ^ 128 :=
      Nat.sqrt_lt'.mpr (bound.trans_eq (by norm_num))
    have start := (curve_le_iff_sqrt 0 m).mp (by rw [curve_zero]; positivity)
    norm_cast at start
    rw [mul_zero, zero_add, ← sqrt_eq bound] at start
    rw [← sqrt_eq bound] at root
    refine ⟨_, _, ⟨?_, rfl⟩, _, ⟨?_, rfl⟩, _, ⟨?_, rfl⟩, _, ⟨?_, rfl⟩, _, ⟨disc_le m, rfl⟩, _,
      ⟨bound, rfl⟩, _, ⟨?_, rfl⟩, _, ⟨start, rfl⟩, rfl⟩
    all_goals norm_num [P_INV_C_2, P_INV_D_0, P_INV_D_1, P_A, P_B, P_D, P_S] at *
    all_goals omega

private theorem pInverse_of_curve {n : ℕ} (reached : curve t = n) (small : n < 2 ^ 120) :
    pInverse overflow n = .ok t := by
  obtain ⟨u, ran⟩ := pInverse_succeeds_iff.mpr (disc_lt small)
  rw [ran, pInverse_ok ran, inverse_of_curve reached]

end

/-- Below 120 bits neither curve reverts, both are monotone, and the inverse gives exactly the
argument of the curve. -/
theorem curves (overflow : ε) :
    (∀ t < 2 ^ 120, ∃ n, p overflow t = .ok n) ∧ (∀ m < 2 ^ 120, ∃ t, pInverse overflow m = .ok t) ∧
      (∀ s t m n, s < t → p overflow s = .ok m → p overflow t = .ok n → m < n) ∧
      (∀ m n s t, m ≤ n → pInverse overflow m = .ok s → pInverse overflow n = .ok t → s ≤ t) ∧
      p overflow 0 = .ok 0 ∧ pInverse overflow 0 = .ok 0 ∧
      ∀ t n, p overflow t = .ok n → n < 2 ^ 120 → ∃ u, pInverse overflow n = .ok u ∧ t - 1 ≤ u ∧
        u ≤ t := by
  obtain ⟨start, zero⟩ : ∃ n, p overflow 0 = .ok n := p_succeeds (by norm_num)
  refine ⟨fun t small => p_succeeds small, fun m small => pInverse_succeeds_iff.mpr (disc_lt small),
    ?_, ?_, ?_, ?_, ?_⟩
  · intro s t m n less low high
    have rises := curve_strictMono less
    rw [← p_ok low, ← p_ok high] at rises
    exact_mod_cast rises
  · intro m n s t le low high
    rw [pInverse_ok low, pInverse_ok high]
    exact inverse_mono le
  · have value := p_ok zero
    rw [curve_zero] at value
    rw [zero, Int.natCast_eq_zero.mp value]
  · exact pInverse_of_curve curve_zero (by norm_num)
  · intro t n ran small
    exact ⟨t, pInverse_of_curve (p_ok ran).symm small, Nat.sub_le t 1, le_rfl⟩

end AliceNet.Bridge.Sigmoid
