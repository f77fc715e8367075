import AliceNet.Library.Accrual
import AliceNet.Bridge.StakingNFT

/-! What each operation of the staking contract does when it succeeds. -/

namespace AliceNet.Bridge.StakingNFT

open Outcome Accrual Word Function

theorem slushSkim_ok (ran : slushSkim shares accumulator slush = .ok (accumulator', slush'))
    (bound : accumulator < 2 ^ 168) :
    accumulator' = (accumulator + slush / shares) % 2 ^ 168 ∧
      slush' = slush - slush / shares * shares := by
  unfold slushSkim at ran
  split at ran
  · simp only [ok_iff', mul256, sub256, add256, mul_ok_iff, sub_ok_iff, add_ok_iff] at ran
    obtain ⟨_, ⟨_, rfl⟩, _, ⟨_, rfl⟩, _, ⟨_, rfl⟩, rfl, rfl⟩ := ran
    refine ⟨?_, rfl⟩
    split
    · rfl
    · exact (Nat.mod_eq_of_lt (by omega)).symm
  · rename_i empty
    have noShares : shares = 0 := by omega
    subst noShares
    simp only [pure_ok_iff, Prod.mk.injEq] at ran
    obtain ⟨rfl, rfl⟩ := ran
    exact ⟨by rw [Nat.div_zero, Nat.add_zero, Nat.mod_eq_of_lt bound], by rw [Nat.mul_zero,
      Nat.sub_zero]⟩

theorem accumulatorSteps_ok (ran : accumulatorSteps accumulator mark = .ok (steps, mark'))
    (bound : accumulator < 2 ^ 168) (markBound : mark < 2 ^ 168) :
    steps = lag (2 ^ 168) accumulator mark ∧ mark' = accumulator := by
  unfold accumulatorSteps at ran
  split at ran
  · rename_i wrapped
    simp only [ok_iff', sub256, add256, sub_ok_iff, add_ok_iff] at ran
    obtain ⟨_, ⟨_, rfl⟩, _, ⟨_, rfl⟩, rfl, rfl⟩ := ran
    exact ⟨(lag_of_lt wrapped markBound).symm, rfl⟩
  · rename_i ordered
    simp only [ok_iff', sub256, add256, sub_ok_iff, add_ok_iff] at ran
    obtain ⟨_, ⟨_, rfl⟩, _, ⟨_, rfl⟩, rfl, rfl⟩ := ran
    exact ⟨(lag_of_le (by omega) bound).symm, by omega⟩

theorem flushSlush_ok
    (ran : flushSlush shares positionShares payout slush = .ok (payout', slush')) :
    payout' + slush' = payout + slush := by
  unfold flushSlush at ran
  split at ran
  · simp only [ok_iff', add256, add_ok_iff] at ran
    obtain ⟨_, ⟨_, rfl⟩, rfl, rfl⟩ := ran
    rfl
  · simp only [pure_ok_iff, Prod.mk.injEq] at ran
    obtain ⟨rfl, rfl⟩ := ran
    rfl

theorem collect_ok (ran : collect shares state p mark = .ok (state', p', mark', payout))
    (bound : state.accumulator < 2 ^ 168) (markBound : mark < 2 ^ 168) :
    p' = p ∧ state'.accumulator = (state.accumulator + state.slush / shares) % 2 ^ 168 ∧
      mark' = state'.accumulator ∧
      payout * ACCUMULATOR_SCALE_FACTOR + state'.slush =
        p.shares * lag (2 ^ 168) state'.accumulator mark +
          (state.slush - state.slush / shares * shares) := by
  unfold collect at ran
  simp only [ok_iff, mul256, sub256, add256, mul_ok_iff, sub_ok_iff, add_ok_iff,
    Prod.mk.injEq] at ran
  obtain ⟨⟨accumulator, slush⟩, skim, ⟨steps, settled⟩, walked, _, ⟨_, rfl⟩, ⟨due, kept⟩, flushed,
    _, ⟨_, rfl⟩, _, ⟨scaled, rfl⟩, _, ⟨_, rfl⟩, rfl, rfl, rfl, rfl⟩ := ran
  obtain ⟨accumulatorEq, slushEq⟩ := slushSkim_ok skim bound
  have skimmedBound : accumulator < 2 ^ 168 := by
    rw [accumulatorEq]
    exact Nat.mod_lt _ (by decide)
  obtain ⟨stepsEq, markEq⟩ := accumulatorSteps_ok walked skimmedBound markBound
  have total := flushSlush_ok flushed
  refine ⟨rfl, accumulatorEq, markEq, ?_⟩
  simp only at *
  subst stepsEq slushEq
  rw [Nat.mul_comm (lag _ _ _)] at total
  omega

theorem deposit_ok (ran : deposit delta state = .ok state') :
    state'.accumulator = state.accumulator ∧ state'.slush = state.slush +
      delta * ACCUMULATOR_SCALE_FACTOR := by
  unfold deposit at ran
  simp only [ok_iff, mul256, add256, mul_ok_iff, add_ok_iff] at ran
  obtain ⟨_, ⟨_, rfl⟩, _, ⟨_, rfl⟩, _, _, rfl⟩ := ran
  exact ⟨rfl, rfl⟩

theorem safeTransferEth_ok (ran : safeTransferEth chain σ recipient amount = .ok σ') :
    amount ≤ σ.ethBalance ∧ ∃ balance, σ.ethBalance - amount ≤ balance ∧ balance ≤ σ.ethBalance ∧
      σ' = { σ with ethBalance := balance } := by
  unfold safeTransferEth at ran
  split at ran
  · rename_i nothing
    rw [pure_ok_iff] at ran
    exact ⟨by omega, σ.ethBalance, by omega, le_rfl, ran.symm⟩
  · simp only [ok_iff] at ran
    obtain ⟨_, _, _, ⟨enough, _⟩, rfl⟩ := ran
    refine ⟨enough, _, ?_, ?_, rfl⟩ <;> split <;> omega

theorem safeTransferERC20_ok (ran : safeTransferERC20 chain σ recipient amount = .ok σ') :
    amount ≤ σ.tokenBalance ∧ ∃ balance, σ.tokenBalance - amount ≤ balance ∧
      balance ≤ σ.tokenBalance ∧
      σ' = { σ with tokenBalance := balance } := by
  unfold safeTransferERC20 at ran
  split at ran
  · rename_i nothing
    rw [pure_ok_iff] at ran
    exact ⟨by omega, σ.tokenBalance, by omega, le_rfl, ran.symm⟩
  · simp only [ok_iff] at ran
    obtain ⟨_, _, _, _, _, enough, rfl⟩ := ran
    refine ⟨enough, _, ?_, ?_, rfl⟩ <;> split <;> omega

theorem safeTransferFromERC20_ok (ran : safeTransferFromERC20 chain σ msg amount = .ok σ')
    (funded : msg.Funded chain σ) :
    σ' = { σ with tokenBalance := σ.tokenBalance + amount } ∧ σ.tokenBalance + amount ≤
      chain.aTokenSupply := by
  obtain ⟨_, available⟩ := funded
  unfold safeTransferFromERC20 at ran
  split at ran
  · rename_i nothing
    rw [pure_ok_iff] at ran
    subst nothing ran
    exact ⟨rfl, by omega⟩
  · simp only [ok_iff] at ran
    obtain ⟨_, _, _, allowed, rfl⟩ := ran
    exact ⟨rfl, by omega⟩

theorem ownerOf_ok (ran : ownerOf σ tokenID = .ok owner) : σ.owners tokenID = some owner := by
  unfold ownerOf at ran
  split at ran <;> simp_all

theorem getPositionToCollect_ok (ran : getPositionToCollect σ msg tokenID = .ok p) :
    σ.owners tokenID = some msg.sender ∧ p = σ.positions tokenID := by
  unfold getPositionToCollect at ran
  simp only [ok_iff] at ran
  obtain ⟨owner, found, _, rfl, _, _, rfl⟩ := ran
  exact ⟨ownerOf_ok found, rfl⟩

theorem collectEth_ok_iff : collectEth σ p = .ok (σ', p', payout) ↔ ∃ state q mark,
    collect σ.shares σ.ethState p p.accumulatorEth = .ok (state, q, mark, payout) ∧
      σ' = { σ with ethState := state } ∧ p' = { q with accumulatorEth := mark } := by
  simp only [collectEth, ok_iff']
  constructor
  · rintro ⟨_, _, _, _, collected, rfl, rfl, rfl⟩
    exact ⟨_, _, _, collected, rfl, rfl⟩
  · rintro ⟨_, _, _, collected, rfl, rfl⟩
    exact ⟨_, _, _, _, collected, rfl, rfl, rfl⟩

theorem collectToken_ok_iff : collectToken σ p = .ok (σ', p', payout) ↔ ∃ state q mark,
    collect σ.shares σ.tokenState p p.accumulatorToken = .ok (state, q, mark, payout) ∧
      σ' = { σ with tokenState := state } ∧ p' = { q with accumulatorToken := mark } := by
  simp only [collectToken, ok_iff']
  constructor
  · rintro ⟨_, _, _, _, collected, rfl, rfl, rfl⟩
    exact ⟨_, _, _, collected, rfl, rfl⟩
  · rintro ⟨_, _, _, collected, rfl, rfl⟩
    exact ⟨_, _, _, _, collected, rfl, rfl, rfl⟩

theorem collectEthTo_ok (ran : collectEthTo chain σ msg recipient tokenID = .ok (σ', payout)) :
    ∃ state q mark balance, σ.owners tokenID ≠ none ∧
      collect σ.shares σ.ethState (σ.positions tokenID) (σ.positions tokenID).accumulatorEth =
        .ok (state, q, mark, payout) ∧
      payout ≤ σ.reserveEth ∧ σ.ethBalance - payout ≤ balance ∧ balance ≤ σ.ethBalance ∧
      σ' = { σ with
        ethState := state
        positions := update σ.positions tokenID { q with accumulatorEth := mark }
        reserveEth := σ.reserveEth - payout
        ethBalance := balance } := by
  unfold collectEthTo at ran
  simp only [ok_iff, sub256, sub_ok_iff, Prod.mk.injEq] at ran
  obtain ⟨p, found, ⟨collected, q, due⟩, taken, _, ⟨covered, rfl⟩, sent, transferred, rfl, rfl⟩ :=
    ran
  obtain ⟨owned, rfl⟩ := getPositionToCollect_ok found
  obtain ⟨state, q, mark, collected, rfl, rfl⟩ := collectEth_ok_iff.mp taken
  obtain ⟨_, balance, lower, upper, rfl⟩ := safeTransferEth_ok transferred
  exact ⟨state, q, mark, balance, by simp [owned], collected, covered, lower, upper, rfl⟩

theorem collectTokenTo_ok (ran : collectTokenTo chain σ msg recipient tokenID = .ok (σ', payout)) :
    ∃ state q mark balance, σ.owners tokenID ≠ none ∧
      collect σ.shares σ.tokenState (σ.positions tokenID) (σ.positions tokenID).accumulatorToken =
        .ok (state, q, mark, payout) ∧
      payout ≤ σ.reserveToken ∧ σ.tokenBalance - payout ≤ balance ∧ balance ≤ σ.tokenBalance ∧
      σ' = { σ with
        tokenState := state
        positions := update σ.positions tokenID { q with accumulatorToken := mark }
        reserveToken := σ.reserveToken - payout
        tokenBalance := balance } := by
  unfold collectTokenTo at ran
  simp only [ok_iff, sub256, sub_ok_iff, Prod.mk.injEq] at ran
  obtain ⟨p, found, ⟨collected, q, due⟩, taken, _, ⟨covered, rfl⟩, sent, transferred, rfl, rfl⟩ :=
    ran
  obtain ⟨owned, rfl⟩ := getPositionToCollect_ok found
  obtain ⟨state, q, mark, collected, rfl, rfl⟩ := collectToken_ok_iff.mp taken
  obtain ⟨_, balance, lower, upper, rfl⟩ := safeTransferERC20_ok transferred
  exact ⟨state, q, mark, balance, by simp [owned], collected, covered, lower, upper, rfl⟩

theorem burnNFT_ok (ran : burnNFT chain σ msg sender recipient tokenID =
    .ok (σ', payoutEth, payoutToken)) :
    ∃ ethState q markEth tokenState r markToken due ethBalance tokenBalance,
    σ.owners tokenID = some sender ∧
      collect σ.shares σ.ethState (σ.positions tokenID) (σ.positions tokenID).accumulatorEth =
        .ok (ethState, q, markEth, payoutEth) ∧
      collect σ.shares σ.tokenState { q with accumulatorEth := markEth } q.accumulatorToken =
        .ok (tokenState, r, markToken, due) ∧
      payoutToken = due + r.shares ∧ payoutEth ≤ σ.reserveEth ∧ payoutToken ≤ σ.reserveToken ∧
      r.shares ≤ σ.shares ∧
      σ.ethBalance - payoutEth ≤ ethBalance ∧ ethBalance ≤ σ.ethBalance ∧
      σ.tokenBalance - payoutToken ≤ tokenBalance ∧ tokenBalance ≤ σ.tokenBalance ∧
      σ' = { σ with
        shares := σ.shares - r.shares
        ethState, tokenState
        positions := update σ.positions tokenID ⟨0, 0, 0, 0, 0⟩
        reserveEth := σ.reserveEth - payoutEth
        reserveToken := σ.reserveToken - payoutToken
        owners := update σ.owners tokenID none
        ethBalance, tokenBalance } := by
  unfold burnNFT erc721Burn at ran
  simp only [ok_iff, sub256, add256, sub_ok_iff, add_ok_iff, Prod.mk.injEq] at ran
  obtain ⟨owner, found, _, rfl, _, _, ⟨σ₁, q, _⟩, takenEth, ⟨σ₂, r, due⟩, takenToken, _, ⟨_, rfl⟩,
    _, ⟨held, rfl⟩, _, ⟨coveredToken, rfl⟩, _, ⟨coveredEth, rfl⟩, _, ⟨_, _, rfl⟩, σ₃, sentToken, σ₄,
    sentEth, rfl, rfl, rfl⟩ := ran
  obtain ⟨ethState, q, markEth, collectedEth, rfl, rfl⟩ := collectEth_ok_iff.mp takenEth
  obtain ⟨tokenState, r, markToken, collectedToken, rfl, rfl⟩ := collectToken_ok_iff.mp takenToken
  obtain ⟨_, tokenBalance, lowerToken, upperToken, rfl⟩ := safeTransferERC20_ok sentToken
  obtain ⟨_, ethBalance, lowerEth, upperEth, rfl⟩ := safeTransferEth_ok sentEth
  exact ⟨ethState, q, markEth, tokenState, r, markToken, due, ethBalance, tokenBalance,
    ownerOf_ok found, collectedEth, collectedToken, rfl, coveredEth, coveredToken, held, lowerEth,
    upperEth, lowerToken, upperToken, rfl⟩

/-- An accumulator after `slushSkim`. -/
def skimmed (shares : ℕ) (state : Accumulator) : Accumulator :=
  ⟨(state.accumulator + state.slush / shares) % 2 ^ 168,
    state.slush - state.slush / shares * shares⟩

private theorem skimmed_zero (bound : state.accumulator < 2 ^ 168) : skimmed 0 state = state := by
  simp only [skimmed, Nat.div_zero, Nat.add_zero, Nat.mul_zero, Nat.sub_zero,
    Nat.mod_eq_of_lt bound]

private theorem skimBoth_ok (ran : skimBoth σ = .ok σ')
    (boundEth : σ.ethState.accumulator < 2 ^ 168)
    (boundToken : σ.tokenState.accumulator < 2 ^ 168) :
    σ' = { σ with
      ethState := skimmed σ.shares σ.ethState
      tokenState := skimmed σ.shares σ.tokenState } := by
  unfold skimBoth at ran
  split at ran
  · simp only [ok_iff] at ran
    obtain ⟨⟨accEth, slushEth⟩, skimEth, ⟨accToken, slushToken⟩, skimToken, rfl⟩ := ran
    obtain ⟨rfl, rfl⟩ := slushSkim_ok skimEth boundEth
    obtain ⟨rfl, rfl⟩ := slushSkim_ok skimToken boundToken
    rfl
  · rename_i empty
    have noShares : σ.shares = 0 := by omega
    rw [pure_ok_iff] at ran
    have skimEth : skimmed σ.shares σ.ethState = σ.ethState := by rw [noShares,
      skimmed_zero boundEth]
    have skimToken : skimmed σ.shares σ.tokenState = σ.tokenState := by rw [noShares,
      skimmed_zero boundToken]
    rw [skimEth, skimToken, ← ran]

theorem mintNFT_ok (ran : mintNFT chain σ msg recipient amount = .ok (σ', tokenID))
    (funded : msg.Funded chain σ) (boundEth : σ.ethState.accumulator < 2 ^ 168)
    (boundToken : σ.tokenState.accumulator < 2 ^ 168) :
    tokenID = σ.counter + 1 ∧ recipient ≠ 0 ∧ σ.tokenBalance + amount ≤ chain.aTokenSupply ∧
    ∃ freeAfter,
      σ' = { σ with
        counter := σ.counter + 1
        shares := σ.shares + amount
        ethState := skimmed σ.shares σ.ethState
        tokenState := skimmed σ.shares σ.tokenState
        positions := update σ.positions (σ.counter + 1)
          ⟨amount, freeAfter, freeAfter, (skimmed σ.shares σ.ethState).accumulator,
            (skimmed σ.shares σ.tokenState).accumulator⟩
        reserveToken := σ.reserveToken + amount
        owners := update σ.owners (σ.counter + 1) (some recipient)
        tokenBalance := σ.tokenBalance + amount } := by
  unfold mintNFT erc721Mint at ran
  simp only [ok_iff, add256, add32, add_ok_iff, Prod.mk.injEq] at ran
  obtain ⟨_, _, _, fits, σ₁, pulled, _, ⟨_, rfl⟩, σ₂, skim, _, ⟨_, rfl⟩, freeAfter, _, _, ⟨_, rfl⟩,
    _, ⟨_, nonzero, _, _, rfl⟩, rfl, rfl⟩ := ran
  obtain ⟨rfl, available⟩ := safeTransferFromERC20_ok pulled funded
  have skimEq := skimBoth_ok skim boundEth boundToken
  subst skimEq
  refine ⟨rfl, nonzero, available, freeAfter, ?_⟩
  rw [Nat.mod_eq_of_lt (by omega : amount < 2 ^ 224)]

/-- Position `p'` differs from `p` in its locks only. -/
def Position.SameStake (p p' : Position) : Prop :=
  p'.shares = p.shares ∧ p'.accumulatorEth = p.accumulatorEth ∧ p'.accumulatorToken =
    p.accumulatorToken

theorem lockPositionInternal_ok
    (ran : lockPositionInternal σ msg tokenID duration = .ok (σ', locked)) :
    ∃ p, (σ.positions tokenID).SameStake p ∧
      σ' = { σ with positions := update σ.positions tokenID p } := by
  unfold lockPositionInternal at ran
  simp only [ok_iff'] at ran
  obtain ⟨_, _, freeDur, _, rfl, _⟩ := ran
  refine ⟨_, ?_, rfl⟩
  exact ⟨rfl, rfl, rfl⟩

theorem lockWithdrawInternal_ok
    (ran : lockWithdrawInternal σ msg tokenID duration = .ok (σ', locked)) :
    ∃ p, (σ.positions tokenID).SameStake p ∧
      σ' = { σ with positions := update σ.positions tokenID p } := by
  unfold lockWithdrawInternal at ran
  simp only [ok_iff'] at ran
  obtain ⟨_, _, freeDur, _, rfl, _⟩ := ran
  refine ⟨_, ?_, rfl⟩
  exact ⟨rfl, rfl, rfl⟩

end AliceNet.Bridge.StakingNFT
