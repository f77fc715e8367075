import AliceNet.Bridge.StakingPayout

/-! What positions can collect around a mint. -/

namespace AliceNet.Bridge.StakingNFT

open Outcome Accrual

def estimateEthCollection (σ : Storage) (tokenID : ℕ) : Except Revert ℕ := do
  onlyIfTokenExists σ tokenID
  let p := σ.positions tokenID
  let (_, _, _, payout) ← collect σ.shares σ.ethState p p.accumulatorEth
  pure payout

def estimateTokenCollection (σ : Storage) (tokenID : ℕ) : Except Revert ℕ := do
  onlyIfTokenExists σ tokenID
  let p := σ.positions tokenID
  let (_, _, _, payout) ← collect σ.shares σ.tokenState p p.accumulatorToken
  pure payout

def claim (shares : ℕ) (state : Accumulator) (own mark : ℕ) : ℕ :=
  (own * lag (2 ^ 168) (skimmed shares state).accumulator mark +
    if shares = own then (skimmed shares state).slush else 0) / ACCUMULATOR_SCALE_FACTOR

private theorem collect_payout (ran : collect shares state p mark = .ok (state', p', mark', payout))
    (bound : state.accumulator < 2 ^ 168) (markBound : mark < 2 ^ 168) :
    payout = claim shares state p.shares mark := by
  unfold collect at ran
  simp only [ok_iff, mul256, sub256, add256, Word.mul_ok_iff, Word.sub_ok_iff, Word.add_ok_iff,
    Prod.mk.injEq] at ran
  obtain ⟨⟨_, _⟩, skim, ⟨_, _⟩, walked, _, ⟨_, rfl⟩, ⟨due, _⟩, flushed, _, _, _, _, _, _, _, _, _,
    rfl⟩ := ran
  obtain ⟨rfl, rfl⟩ := slushSkim_ok skim bound
  obtain ⟨rfl, _⟩ := accumulatorSteps_ok walked (Nat.mod_lt _ (by decide)) markBound
  have flushed : due = p.shares * lag (2 ^ 168) (skimmed shares state).accumulator mark +
      if shares = p.shares then (skimmed shares state).slush else 0 := by
    rw [Nat.mul_comm]
    unfold flushSlush at flushed
    split_ifs at flushed ⊢
    · simp only [ok_iff', add256, Word.add_ok_iff] at flushed
      obtain ⟨_, ⟨_, rfl⟩, rfl, _⟩ := flushed
      rfl
    · exact (Prod.mk.inj (pure_ok_iff.mp flushed)).1.symm
  exact congrArg (· / ACCUMULATOR_SCALE_FACTOR) flushed

theorem Stream.collect_eq {holders : Finset ℕ} {weight marks : ℕ → ℕ}
    (stream : Stream holders weight marks state kept reserve)
    (total : ∑ holder ∈ holders, weight holder = shares) (mem : tokenID ∈ holders)
    (own : weight tokenID = p.shares) (supply : ACCUMULATOR_SCALE_FACTOR * reserve < 2 ^ 255) :
    ∃ state' p' mark', collect shares state p (marks tokenID) =
      .ok (state', p', mark', claim shares state p.shares (marks tokenID)) := by
  obtain ⟨⟨state', p', mark', payout⟩, collected⟩ := stream.collect_total total mem own supply
  rw [← collect_payout collected stream.accumulator (stream.marks _ mem)]
  exact ⟨state', p', mark', collected⟩

section

variable (inv : Invariant chain σ) (mem : tokenID ∈ live σ)

include inv mem

theorem Invariant.estimateEth : estimateEthCollection σ tokenID =
    .ok (claim σ.shares σ.ethState (σ.positions tokenID).shares
      (σ.positions tokenID).accumulatorEth) := by
  obtain ⟨_, _, _, collected⟩ :=
    inv.ethStream.collect_eq (p := σ.positions tokenID) inv.shares.symm mem rfl
    ((Nat.mul_le_mul_left _ (inv.backedEth.trans inv.boundedEth)).trans_lt chain.ethSupply_scaled)
  simp only [estimateEthCollection, onlyIfTokenExists, ok_iff]
  exact ⟨(), (mem_live_iff inv).mp mem, _, collected, rfl⟩

theorem Invariant.estimateToken : estimateTokenCollection σ tokenID =
    .ok (claim σ.shares σ.tokenState (σ.positions tokenID).shares
      (σ.positions tokenID).accumulatorToken) := by
  obtain ⟨_, _, _, collected⟩ :=
    inv.tokenStream.collect_eq (p := σ.positions tokenID) inv.shares.symm mem rfl
    ((Nat.mul_le_mul_left _ (inv.backedToken.trans inv.boundedToken)).trans_lt
    chain.aTokenSupply_scaled)
  simp only [estimateTokenCollection, onlyIfTokenExists, ok_iff]
  exact ⟨(), (mem_live_iff inv).mp mem, _, collected, rfl⟩

end

def Undiluted (shares own before after : ℕ) : Prop :=
  if own = shares then after ≤ before ∧ (before - after) * ACCUMULATOR_SCALE_FACTOR <
    shares + ACCUMULATOR_SCALE_FACTOR
  else after = before

theorem skimmed_slush_lt (pos : 0 < shares) (state : Accumulator) :
    (skimmed shares state).slush < shares := by
  rw [skimmed, Nat.mul_comm, ← Nat.mod_eq_sub_mul_div]
  exact Nat.mod_lt _ pos

theorem skimmed_skimmed (pos : 0 < shares) (amount : ℕ) (state : Accumulator) :
    skimmed (shares + amount) (skimmed shares state) = skimmed shares state := by
  have rest := skimmed_slush_lt pos state
  have bound : (skimmed shares state).accumulator < 2 ^ 168 := Nat.mod_lt _ (by decide)
  rw [skimmed.eq_1 (shares + amount), Nat.div_eq_of_lt (by omega), Nat.add_zero,
    Nat.mod_eq_of_lt bound, Nat.zero_mul, Nat.sub_zero]

private theorem claim_minted (pos : 0 < shares) (amount : ℕ) (state : Accumulator) :
    claim (shares + amount) (skimmed shares state) amount (skimmed shares state).accumulator =
      0 := by
  rw [claim, skimmed_skimmed pos, lag_self, if_neg (by omega), Nat.mul_zero, Nat.zero_div]

private theorem claim_undiluted (pos : 0 < shares) (some : 0 < amount) (part : own ≤ shares)
    (state : Accumulator) (mark : ℕ) : Undiluted shares own (claim shares state own mark)
      (claim (shares + amount) (skimmed shares state) own mark) := by
  have rest := skimmed_slush_lt pos state
  unfold Undiluted claim
  rw [skimmed_skimmed pos, if_neg (by omega : shares + amount ≠ own)]
  split
  · rename_i sole
    rw [if_pos sole.symm]
    unfold ACCUMULATOR_SCALE_FACTOR
    omega
  · rename_i several
    rw [if_neg (Ne.symm several)]

/-- A mint into a contract with shares: the new position can collect nothing, and the others keep
what they can. -/
theorem Reachable.mint_dilutes_nobody (reachable : Reachable chain σ) (staked : 0 < σ.shares)
    (funded : msg.Funded chain σ) (ran : mintNFT chain σ msg to_ amount = .ok (σ', tokenID)) :
    (estimateEthCollection σ' tokenID = .ok 0 ∧ estimateTokenCollection σ' tokenID = .ok 0) ∧
      ∀ other ∈ live σ, other ≠ tokenID ∧ ∃ eth eth' token token',
        (estimateEthCollection σ other = .ok eth ∧ estimateEthCollection σ' other = .ok eth' ∧
          Undiluted σ.shares (σ.positions other).shares eth eth') ∧
        (estimateTokenCollection σ other = .ok token ∧ estimateTokenCollection σ' other =
          .ok token' ∧
          Undiluted σ.shares (σ.positions other).shares token token') := by
  have inv := reachable.invariant
  have kept := inv.mintNFT funded ran
  have some : 0 < amount := Nat.pos_of_ne_zero (of_require ran)
  obtain ⟨rfl, _, _, freeAfter, rfl⟩ :=
    mintNFT_ok ran funded inv.accumulatorEth inv.accumulatorToken
  constructor
  · have mem : σ.counter + 1 ∈ live _ := (mem_live_iff kept).mpr (by simp)
    rw [kept.estimateEth mem, kept.estimateToken mem]
    simp only [Function.update_self, claim_minted staked, and_self]
  · intro other present
    have different : other ≠ σ.counter + 1 := fun same => not_mem_live_next σ (same ▸ present)
    have mem : other ∈ live _ :=
      (mem_live_iff kept).mpr (by simpa [different] using (mem_live_iff inv).mp present)
    have part := sum_shares_erase present
    rw [← inv.shares] at part
    have eth := kept.estimateEth mem
    have token := kept.estimateToken mem
    simp only [Function.update_of_ne different] at eth token
    exact ⟨different, _, _, _, _,
      ⟨inv.estimateEth present, eth, claim_undiluted staked some (by omega) _ _⟩,
      inv.estimateToken present, token, claim_undiluted staked some (by omega) _ _⟩

theorem Reachable.mint_dilutes_nobody_second :
    (estimateEthCollection sampleStaked 1 = .ok 50 ∧ estimateTokenCollection sampleStaked 2 =
      .ok 6) ∧
      ∃ σ', mintNFT sampleChain sampleStaked ⟨8, 0, 3, 20⟩ 8 3 = .ok (σ', 3) ∧
        estimateTokenCollection σ' 3 = .ok 0 := by
  refine ⟨by decide +kernel, ?_⟩
  obtain ⟨⟨σ', tokenID⟩, minted⟩ : ∃ result, mintNFT sampleChain sampleStaked ⟨8, 0, 3, 20⟩ 8 3 =
    .ok result := ⟨_, rfl⟩
  have spared :=
    sampleStaked_reachable.mint_dilutes_nobody (by decide) (by unfold Msg.Funded; decide) minted
  obtain rfl : tokenID = 3 := (Prod.mk.inj (Except.ok.inj minted)).2.symm
  exact ⟨σ', minted, spared.1.2⟩

end AliceNet.Bridge.StakingNFT
