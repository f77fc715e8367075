import AliceNet.Bridge.Snapshots

/-! Who may take a snapshot, as the node and the contract decide it. -/

namespace AliceNet.Bridge.Snapshots

open Outcome Finset

/-- The loop of `LeaderElection`; `i` counts the blocks down. -/
def leaderLoop (numValidators desperationFactor i numValidatorsAllowed : ℤ) : ℤ :=
  if 0 < i then
    if numValidators ≤ numValidatorsAllowed + 1 then numValidatorsAllowed + 1
    else leaderLoop numValidators desperationFactor
      (i - desperationFactor.tdiv numValidatorsAllowed) (numValidatorsAllowed + 1)
  else numValidatorsAllowed
termination_by (numValidators - numValidatorsAllowed).toNat

def LeaderElection (numValidators myIdx blocksSinceDesperation desperationFactor : ℤ)
    (seedHash : Bytes32) : Bool :=
  let numValidatorsAllowed := leaderLoop numValidators desperationFactor blocksSinceDesperation 1
  let start := (seedHash.toNat : ℤ) % numValidators
  let finish := ((start + numValidatorsAllowed).bmod (2 ^ 64)).tmod numValidators
  if start < finish then decide (start ≤ myIdx ∧ myIdx < finish) else
    decide (start ≤ myIdx ∨ myIdx < finish)

/-- The blocks that pass until more than `k` validators are allowed. -/
def wait (desperationFactor k : ℕ) : ℕ := ∑ j ∈ Finset.range k, desperationFactor / j

def turnSize (numValidators desperationFactor blocks : ℕ) : ℕ :=
  1 + ((Finset.Ico 1 numValidators).filter fun k => wait desperationFactor k < blocks).card

theorem wait_succ (f k : ℕ) : wait f (k + 1) = wait f k + f / k :=
  sum_range_succ _ _

private theorem wait_mono (f : ℕ) : Monotone (wait f) :=
  monotone_nat_of_le_succ fun k => (wait_succ f k).symm ▸ Nat.le_add_right _ _

private theorem wait_le (f k : ℕ) : wait f (k + 1) ≤ k * f := by
  induction k with
  | zero => simp [wait]
  | succ k ih =>
    rw [wait_succ, Nat.succ_mul]
    exact Nat.add_le_add ih (Nat.div_le_self _ _)

private theorem turnSize_mono (le : b ≤ c) : turnSize n f b ≤ turnSize n f c :=
  Nat.add_le_add_left (card_le_card (monotone_filter_right _ fun _ _ less => less.trans_le le)) 1

section

variable (pos : 1 ≤ r) (le : r ≤ n) (passed : ∀ k < r, 1 ≤ k → wait f k < b)

include pos le passed

theorem turnSize_eq (stops : r < n → b ≤ wait f r) : turnSize n f b = r := by
  have same : (Finset.Ico 1 n).filter (fun k => wait f k < b) = Finset.Ico 1 r := by
    ext k
    rw [mem_filter, mem_Ico, mem_Ico]
    constructor
    · rintro ⟨⟨low, high⟩, short⟩
      refine ⟨low, not_le.mp fun late => ?_⟩
      exact absurd short (not_lt.mpr ((stops (late.trans_lt high)).trans (wait_mono f late)))
    · rintro ⟨low, high⟩
      exact ⟨⟨low, high.trans_le le⟩, passed k high low⟩
  rw [turnSize, same, Nat.card_Ico]
  omega

theorem passed_succ (short : wait f r < b) : ∀ k < r + 1, 1 ≤ k → wait f k < b := by
  intro k less low
  rcases Nat.lt_succ_iff_lt_or_eq.mp less with earlier | rfl
  · exact passed k earlier low
  · exact short

private theorem desperationLoop_eq (enough : n ≤ r + rounds) (few : n < 2 ^ 63)
    (factor : f < 2 ^ 63) (blocks : b < 2 ^ 63) :
    desperationLoop n b f rounds (wait f r) r = .ok (turnSize n f b) := by
  induction rounds generalizing r with
  | zero =>
    rw [desperationLoop, turnSize_eq pos le passed (by omega)]
    rfl
  | succ rounds ih =>
    rw [desperationLoop]
    split
    · rename_i more
      have quotient := Nat.div_le_self f r
      simp only [div256, add256, ok_iff', Word.add_ok_iff]
      refine ⟨_, ⟨by omega, rfl⟩, _, ⟨by omega, rfl⟩, _, ⟨by omega, rfl⟩, ?_⟩
      rw [← wait_succ]
      exact ih (by omega) more.2 (passed_succ pos le passed more.1) (by omega)
    · rename_i last
      rw [turnSize_eq pos le passed fun less => not_lt.mp fun short => last ⟨short, less⟩]
      rfl

private theorem leaderLoop_eq (reach : n = r + gap + 1) :
    leaderLoop n f (b - wait f r) r = turnSize n f b := by
  induction gap generalizing r with
  | zero =>
    rw [leaderLoop]
    split
    · rename_i short
      rw [if_pos (by omega), turnSize_eq (r := r + 1) (by omega) (by omega)
        (passed_succ pos le passed (by omega)) (by omega)]
      push_cast
      rfl
    · rw [turnSize_eq pos le passed (by omega)]
  | succ gap ih =>
    rw [leaderLoop]
    split
    · rename_i short
      have next := ih (r := r + 1) (by omega) (by omega) (passed_succ pos le passed (by omega))
        (by omega)
      rw [wait_succ, Nat.cast_add, ← sub_sub, Int.natCast_ediv,
        ← Int.tdiv_eq_ediv_of_nonneg (by omega)] at next
      rw [if_neg (by omega)]
      exact_mod_cast next
    · rw [turnSize_eq pos le passed (by omega)]

end

private theorem in_turn_iff (mem : idx < n) (first : start < n) (pos : 1 ≤ size) (le : size ≤ n) :
    (if start < (start + size) % n then decide (start ≤ idx ∧ idx < (start + size) % n)
      else decide (start ≤ idx ∨ idx < (start + size) % n)) = true ↔ ∃ j < size,
        idx = (start + j) % n := by
  rcases lt_or_ge (start + size) n with inside | around
  · rw [Nat.mod_eq_of_lt inside, if_pos (by omega), decide_eq_true_iff]
    constructor
    · rintro ⟨low, high⟩
      exact ⟨idx - start, by omega, by rw [Nat.add_sub_cancel' low, Nat.mod_eq_of_lt mem]⟩
    · rintro ⟨j, less, rfl⟩
      rw [Nat.mod_eq_of_lt (by omega)]
      omega
  · rw [Nat.mod_eq_sub_mod around, Nat.mod_eq_of_lt (by omega), if_neg (by omega),
      decide_eq_true_iff]
    constructor
    · rintro (high | low)
      · exact ⟨idx - start, by omega, by rw [Nat.add_sub_cancel' high, Nat.mod_eq_of_lt mem]⟩
      · refine ⟨idx + n - start, by omega, ?_⟩
        rw [Nat.add_sub_cancel' (by omega), Nat.add_mod_right, Nat.mod_eq_of_lt mem]
    · rintro ⟨j, less, rfl⟩
      rcases lt_or_ge (start + j) n with before | after
      · rw [Nat.mod_eq_of_lt before]
        omega
      · rw [Nat.mod_eq_sub_mod after, Nat.mod_eq_of_lt (by omega)]
        omega

theorem turnSize_le (pos : 1 ≤ n) : turnSize n f b ≤ n := by
  have bound := card_filter_le (Finset.Ico 1 n) fun k => wait f k < b
  rw [Nat.card_Ico] at bound
  rw [turnSize]
  omega

private theorem leaderElection_eq {n : ℕ} (pos : 1 ≤ n) (few : n ≤ 2 ^ 62) (idx b f : ℕ)
    (seed : Bytes32) :
    LeaderElection n idx b f seed =
      if seed.toNat % n < (seed.toNat % n + turnSize n f b) % n then
        decide (seed.toNat % n ≤ idx ∧ idx < (seed.toNat % n + turnSize n f b) % n)
      else decide (seed.toNat % n ≤ idx ∨ idx < (seed.toNat % n + turnSize n f b) % n) := by
  have first := Nat.mod_lt seed.toNat pos
  rcases pos.eq_or_lt with rfl | several
  · simp [LeaderElection, Nat.mod_one, Int.tmod_one]
  · obtain ⟨gap, reach⟩ := Nat.exists_eq_add_of_lt several
    have count := leaderLoop_eq (r := 1) (f := f) (b := b) le_rfl pos (by omega) reach
    have size := turnSize_le (f := f) (b := b) pos
    simp only [wait, range_one, sum_singleton, Nat.div_zero, Nat.cast_zero, sub_zero, Nat.cast_one]
      at count
    rw [LeaderElection, count, ← Int.natCast_mod, ← Nat.cast_add,
      Int.bmod_eq_of_le (by omega) (by omega), Int.tmod_eq_emod_of_nonneg (by positivity)]
    norm_cast

/-- With at most 2 ^ 62 validators the node and the contract agree on who may take the snapshot: the
validators from `seed % n` on, around the circle, ever more of them and in the end all. -/
theorem election_agrees (n idx f b : ℕ) (seed : Bytes32) (pos : 1 ≤ n) (few : n ≤ 2 ^ 62)
    (mem : idx < n) (factor : f < 2 ^ 63) (blocks : b < 2 ^ 63) :
    Turn.isAllowedToDoSnapshots <$> mayValidatorSnapshot n idx b seed f =
      .ok (LeaderElection n idx b f seed) ∧
      (LeaderElection n idx b f seed = true ↔ ∃ j < turnSize n f b,
        idx = (seed.toNat % n + j) % n) ∧
      1 ≤ turnSize n f b ∧ (∀ c, b ≤ c → turnSize n f b ≤ turnSize n f c) ∧
      (n * f < b → turnSize n f b = n) := by
  have first := Nat.mod_lt seed.toNat pos
  have size := turnSize_le (f := f) (b := b) pos
  have least : 1 ≤ turnSize n f b := Nat.le_add_right 1 _
  refine ⟨?_, ?_, least, fun c => turnSize_mono, fun late => ?_⟩
  · have count : desperationLoop n b f n (wait f 1) 1 = .ok (turnSize n f b) :=
      desperationLoop_eq le_rfl pos (by omega) (by omega) (by omega) factor blocks
    rw [wait, range_one, sum_singleton, Nat.div_zero] at count
    simp only [mayValidatorSnapshot, count, mod256, add256, ok_iff', Word.add_ok_iff,
      leaderElection_eq pos few]
    exact ⟨_, ⟨_, rfl, _, ⟨by omega, rfl⟩, _, ⟨by omega, rfl⟩, _, ⟨by omega, rfl⟩, rfl⟩, rfl⟩
  · rw [leaderElection_eq pos few]
    exact in_turn_iff mem first least size
  · refine turnSize_eq pos le_rfl (fun k less low => ?_) (absurd · (lt_irrefl n))
    obtain ⟨k, rfl⟩ := Nat.exists_eq_add_of_le' low
    exact ((wait_le f k).trans (Nat.mul_le_mul_right f (by omega))).trans_lt late

theorem election_agrees_four : LeaderElection 4 0 4 3 3#256 = true ∧ turnSize 4 3 4 = 3 :=
  ⟨(election_agrees 4 0 3 4 3#256 (by decide) (by decide) (by decide) (by decide)
    (by decide)).2.1.mpr
    ⟨1, by decide, by decide⟩, by decide⟩

/-- With 2 ^ 63 - 1 validators the contract allows the last and the first one; for the node the sum
of the indexes is negative, so that the first one has to wait. -/
theorem election_differs :
    Turn.isAllowedToDoSnapshots <$> mayValidatorSnapshot (2 ^ 63 - 1) 0 1
      (BitVec.ofNat 256 (2 ^ 63 - 2)) 1 = .ok true ∧
      LeaderElection (2 ^ 63 - 1) 0 1 1 (BitVec.ofNat 256 (2 ^ 63 - 2)) = false := by
  refine ⟨by decide +kernel, ?_⟩
  simp [LeaderElection, leaderLoop]

end AliceNet.Bridge.Snapshots
