import AliceNet.Bridge.StakingSolvency

/-! Every position can be closed: burns never run out of reserve, in whatever order they come. -/

namespace AliceNet.Bridge.StakingNFT

open Outcome Accrual Function Word

private theorem slushSkim_total (shares : ℕ) (room : accumulator + slush < 2 ^ 256) :
    ∃ result, slushSkim shares accumulator slush = .ok result := by
  unfold slushSkim
  split
  · have part := Nat.div_mul_le_self slush shares
    have quotient := Nat.div_le_self slush shares
    simp only [ok_iff, mul256, sub256, add256, mul_ok_iff, sub_ok_iff, add_ok_iff]
    exact ⟨_, _, ⟨by omega, rfl⟩, _, ⟨part, rfl⟩, _, ⟨by omega, rfl⟩, rfl⟩
  · exact ⟨_, rfl⟩

private theorem accumulatorSteps_total (bound : accumulator < 2 ^ 168)
    (markBound : mark < 2 ^ 168) : ∃ result, accumulatorSteps accumulator mark = .ok result := by
  unfold accumulatorSteps
  split
  · simp only [ok_iff, sub256, add256, sub_ok_iff, add_ok_iff]
    exact ⟨_, _, ⟨by omega, rfl⟩, _, ⟨by omega, rfl⟩, rfl⟩
  · simp only [ok_iff, sub256, add256, sub_ok_iff, add_ok_iff]
    exact ⟨_, _, ⟨by omega, rfl⟩, _, ⟨by omega, rfl⟩, rfl⟩

private theorem flushSlush_total (shares positionShares : ℕ) (room : payout + slush < 2 ^ 256) :
    ∃ result, flushSlush shares positionShares payout slush = .ok result := by
  unfold flushSlush
  split
  · simp only [ok_iff, add256, add_ok_iff]
    exact ⟨_, _, ⟨room, rfl⟩, rfl⟩
  · exact ⟨_, rfl⟩

theorem collect_total (bound : state.accumulator < 2 ^ 168) (markBound : mark < 2 ^ 168)
    (room : state.accumulator + state.slush < 2 ^ 256)
    (due : p.shares * lag (2 ^ 168) (skimmed shares state).accumulator mark +
      (skimmed shares state).slush < 2 ^ 256) :
    ∃ result, collect shares state p mark = .ok result := by
  obtain ⟨⟨accumulator, slush⟩, skim⟩ := slushSkim_total shares room
  obtain ⟨rfl, rfl⟩ := slushSkim_ok skim bound
  have skimmedBound : (skimmed shares state).accumulator < 2 ^ 168 := Nat.mod_lt _ (by decide)
  obtain ⟨⟨steps, settled⟩, walked⟩ := accumulatorSteps_total skimmedBound markBound
  obtain ⟨rfl, _⟩ := accumulatorSteps_ok walked skimmedBound markBound
  rw [Nat.mul_comm] at due
  obtain ⟨⟨payout, kept⟩, flushed⟩ := flushSlush_total shares p.shares due
  have total := flushSlush_ok flushed
  have part := Nat.div_mul_le_self payout ACCUMULATOR_SCALE_FACTOR
  unfold collect
  simp only [ok_iff, mul256, sub256, add256, mul_ok_iff, sub_ok_iff, add_ok_iff]
  refine ⟨_, _, skim, _, walked, _, ⟨?_, rfl⟩, _, flushed, _, ⟨?_, rfl⟩, _, ⟨part, rfl⟩, _,
    ⟨?_, rfl⟩, rfl⟩
  all_goals
    dsimp only
    omega

private theorem due_le_total {weight marks : ℕ → ℕ} (mem : tokenID ∈ holders)
    (total : ∑ holder ∈ holders, weight holder = shares) (state : Accumulator) :
    weight tokenID * lag (2 ^ 168) (skimmed shares state).accumulator (marks tokenID) +
        (skimmed shares state).slush ≤
      state.slush + owed (2 ^ 168) state.accumulator holders weight marks := by
  have spread : (skimmed shares state).slush + owed (2 ^ 168) (skimmed shares state).accumulator _ _
      _ ≤ _ :=
    spread_le (by decide : 0 < 2 ^ 168) state.accumulator state.slush holders weight marks total
  rw [owed_eq_erase mem] at spread
  omega

theorem Stream.collect_total {weight marks : ℕ → ℕ}
    (stream : Stream holders weight marks state kept reserve)
    (total : ∑ holder ∈ holders, weight holder = shares) (mem : tokenID ∈ holders)
    (own : weight tokenID = p.shares) (supply : ACCUMULATOR_SCALE_FACTOR * reserve < 2 ^ 255) :
    ∃ result, collect shares state p (marks tokenID) = .ok result := by
  have bound := stream.accumulator
  have covered := stream.covered
  have due : weight tokenID * _ + _ ≤ state.slush + owed (2 ^ 168) state.accumulator holders weight
      marks :=
    due_le_total mem total state
  rw [own] at due
  exact StakingNFT.collect_total bound (stream.marks _ mem) (by omega) (by omega)

private theorem safeTransferEth_total (chain : Chain) (enough : amount ≤ σ.ethBalance)
    (nonzero : recipient ≠ 0) (receives : chain.receives recipient = true) :
    ∃ σ', safeTransferEth chain σ recipient amount = .ok σ' := by
  unfold safeTransferEth
  split
  · exact ⟨_, rfl⟩
  · simp only [ok_iff]
    exact ⟨_, (), nonzero, (), ⟨enough, receives⟩, rfl⟩

private theorem safeTransferERC20_total (chain : Chain) (enough : amount ≤ σ.tokenBalance)
    (nonzero : recipient ≠ 0) : ∃ σ', safeTransferERC20 chain σ recipient amount = .ok σ' := by
  unfold safeTransferERC20
  split
  · exact ⟨_, rfl⟩
  · simp only [ok_iff]
    exact ⟨_, (), chain.aToken_ne_zero, (), nonzero, (), enough, rfl⟩

theorem Invariant.burnNFT_total (inv : Invariant chain σ) (owned : σ.owners tokenID = some owner)
    (free : (σ.positions tokenID).freeAfter < msg.number)
    (withdrawFree : (σ.positions tokenID).withdrawFreeAfter < msg.number)
    (receives : chain.receives owner = true) :
    ∃ result, StakingNFT.burnNFT chain σ msg owner owner tokenID = .ok result := by
  have mem := (mem_live_iff inv).mpr (by simp [owned] : σ.owners tokenID ≠ none)
  have nonzero : owner ≠ 0 := fun zero => inv.ownerNonzero tokenID (zero ▸ owned)
  have supplyEth : ACCUMULATOR_SCALE_FACTOR * σ.reserveEth < 2 ^ 255 :=
    (Nat.mul_le_mul_left _ (inv.backedEth.trans inv.boundedEth)).trans_lt chain.ethSupply_scaled
  have supply : ACCUMULATOR_SCALE_FACTOR * σ.reserveToken < 2 ^ 255 :=
    (Nat.mul_le_mul_left _ (inv.backedToken.trans inv.boundedToken)).trans_lt
      chain.aTokenSupply_scaled
  have total := inv.shares.symm
  obtain ⟨⟨ethState, q, ethMark, payoutEth⟩, collectedEth⟩ :=
    inv.ethStream.collect_total (p := σ.positions tokenID) total mem rfl supplyEth
  obtain ⟨rfl, _, coveredEth, _⟩ := inv.ethStream.pay total mem collectedEth rfl
  obtain ⟨⟨tokenState, r, tokenMark, due⟩, collectedToken⟩ :=
    inv.tokenStream.collect_total (p := { σ.positions tokenID with accumulatorEth := ethMark })
      total mem rfl supply
  obtain ⟨rfl, _, coveredToken, _⟩ := inv.tokenStream.pay total mem collectedToken rfl
  have held := sum_shares_erase mem
  rw [← inv.shares] at held
  unfold ACCUMULATOR_SCALE_FACTOR at supply
  have backedEth := inv.backedEth
  have backedToken := inv.backedToken
  let closed := { σ with
    ethState, tokenState
    shares := σ.shares - (σ.positions tokenID).shares
    reserveToken := σ.reserveToken - (due + (σ.positions tokenID).shares)
    reserveEth := σ.reserveEth - payoutEth
    positions := update σ.positions tokenID ⟨0, 0, 0, 0, 0⟩
    owners := update σ.owners tokenID none }
  have payToken : ∃ σ', safeTransferERC20 chain closed owner (due + (σ.positions tokenID).shares) =
      .ok σ' :=
    safeTransferERC20_total chain (by change _ ≤ σ.tokenBalance; omega) nonzero
  obtain ⟨σ₁, sentToken⟩ := payToken
  obtain ⟨_, balance, _, _, rfl⟩ := safeTransferERC20_ok sentToken
  have payEth : ∃ σ', safeTransferEth chain { closed with tokenBalance := balance } owner
      payoutEth = .ok σ' :=
    safeTransferEth_total chain (by change _ ≤ σ.ethBalance; omega) nonzero receives
  obtain ⟨σ₂, sentEth⟩ := payEth
  have found : ownerOf σ tokenID = .ok owner := by simp [ownerOf, owned]
  refine ⟨(σ₂, payoutEth, due + (σ.positions tokenID).shares), ?_⟩
  unfold StakingNFT.burnNFT erc721Burn
  simp only [ok_iff, sub256, add256, sub_ok_iff, add_ok_iff]
  refine ⟨owner, found, (), rfl, (), ⟨free, withdrawFree⟩, _,
    collectEth_ok_iff.mpr ⟨_, _, _, collectedEth, rfl, rfl⟩, _,
    collectToken_ok_iff.mpr ⟨_, _, _, collectedToken, rfl, rfl⟩, _, ⟨?_, rfl⟩, _, ⟨?_, rfl⟩, _,
    ⟨?_, rfl⟩, _, ⟨coveredEth, rfl⟩, _, ⟨owner, found, rfl⟩, _, sentToken, _, sentEth, rfl⟩
  all_goals
    dsimp only
    omega

/-- The owners close the listed positions one after the other. -/
def burnAll (chain : Chain) (number : ℕ) : List ℕ → Storage → Except Revert Storage
  | [], σ => pure σ
  | tokenID :: rest, σ => do
    let owner ← ownerOf σ tokenID
    let σ ← exec chain σ { sender := owner, value := 0, allowance := 0, number } (.burn tokenID)
    burnAll chain number rest σ

/-- Position `tokenID` is past its locks and its owner takes Ether. -/
def Closable (chain : Chain) (number : ℕ) (σ : Storage) (tokenID : ℕ) : Prop :=
  (σ.positions tokenID).freeAfter < number ∧ (σ.positions tokenID).withdrawFreeAfter < number ∧
    ∃ owner, σ.owners tokenID = some owner ∧ chain.receives owner = true

theorem Invariant.burn_closable (inv : Invariant chain σ)
    (closable : Closable chain number σ tokenID) :
    ∃ owner σ', ownerOf σ tokenID = .ok owner ∧
      StakingNFT.exec chain σ { sender := owner, value := 0, allowance := 0, number }
      (.burn tokenID) = .ok σ' ∧
      Invariant chain σ' ∧ live σ' = (live σ).erase tokenID ∧
      ∀ other ≠ tokenID, σ'.positions other = σ.positions other ∧ σ'.owners other =
          σ.owners other := by
  obtain ⟨free, withdrawFree, owner, owned, receives⟩ := closable
  let msg : Msg := { sender := owner, value := 0, allowance := 0, number }
  obtain ⟨⟨σ', payouts⟩, burned⟩ : ∃ result, StakingNFT.burnNFT chain σ msg owner owner tokenID =
      .ok result :=
    inv.burnNFT_total owned free withdrawFree receives
  have kept := inv.burnNFT burned
  obtain ⟨payoutEth, payoutToken⟩ := payouts
  refine ⟨owner, σ', by simp [ownerOf, owned], ?_, kept, ?_, ?_⟩
  · change Prod.fst <$> StakingNFT.burnNFT chain σ msg owner owner tokenID = .ok σ'
    rw [burned]
    rfl
  all_goals
    obtain ⟨ethState, q, ethMark, tokenState, r, tokenMark, due, ethBalance, tokenBalance, _, _, _,
      _, _, _, _, _, _, _, _, rfl⟩ := burnNFT_ok burned
  · exact live_burn rfl rfl
  · exact fun other different => ⟨update_of_ne different _ _, update_of_ne different _ _⟩

theorem Invariant.burnAll_total (inv : Invariant chain σ) (order : List ℕ) (distinct : order.Nodup)
    (closable : ∀ tokenID ∈ order, Closable chain number σ tokenID) :
    ∃ σ', burnAll chain number order σ = .ok σ' ∧ live σ' = live σ \ order.toFinset := by
  induction order generalizing σ with
  | nil => exact ⟨σ, rfl, by simp⟩
  | cons tokenID rest ih =>
    obtain ⟨absent, distinctRest⟩ := List.nodup_cons.mp distinct
    obtain ⟨owner, σ₁, found, burned, kept, liveEq, unchanged⟩ :=
      inv.burn_closable (closable tokenID (by simp))
    have closableRest : ∀ other ∈ rest, Closable chain number σ₁ other := by
      intro other mem
      obtain ⟨samePosition, sameOwner⟩ := unchanged other (fun same => absent (same ▸ mem))
      unfold Closable
      rw [samePosition, sameOwner]
      exact closable other (by simp [mem])
    obtain ⟨σ', rest_ok, rest_live⟩ := ih kept distinctRest closableRest
    refine ⟨σ', ?_, ?_⟩
    · simp only [burnAll, bind_ok_iff]
      exact ⟨owner, found, σ₁, burned, rest_ok⟩
    · rw [rest_live, liveEq]
      ext other
      simp only [Finset.mem_sdiff, Finset.mem_erase, List.mem_toFinset, List.mem_cons]
      tauto

/-- In every state that calls by anyone can reach, the scaled liabilities are covered by the
reserves, what a live position is paid never exceeds the reserve it is taken from, and the live
positions can be closed in any order. -/
theorem reachable_solvent (chain : Chain) (σ : Storage) (reachable : Reachable chain σ) :
    Solvent σ ∧
    (∀ tokenID ∈ live σ, ∀ state p mark payout,
      collect σ.shares σ.ethState (σ.positions tokenID) (σ.positions tokenID).accumulatorEth =
        .ok (state, p, mark, payout) → payout ≤ σ.reserveEth) ∧
    (∀ tokenID ∈ live σ, ∀ state p mark payout,
      collect σ.shares σ.tokenState (σ.positions tokenID) (σ.positions tokenID).accumulatorToken =
        .ok (state, p, mark, payout) → payout + (σ.positions tokenID).shares ≤ σ.reserveToken) ∧
    (∀ order number, order.Nodup → (∀ tokenID, tokenID ∈ order ↔ tokenID ∈ live σ) →
      (∀ tokenID ∈ live σ, Closable chain number σ tokenID) →
      ∃ σ', burnAll chain number order σ = .ok σ' ∧ live σ' = ∅) := by
  have inv := reachable.invariant
  refine ⟨inv.toSolvent, fun tokenID mem state p mark payout collected => ?_,
    fun tokenID mem state p mark payout collected => ?_, fun order number distinct all closable =>
      ?_⟩
  · exact (inv.ethStream.pay inv.shares.symm mem collected rfl).2.2.1
  · have covered := (inv.tokenStream.pay inv.shares.symm mem collected rfl).2.2.1
    have held := sum_shares_erase mem
    rw [← inv.shares] at held
    omega
  · obtain ⟨σ', burned, left⟩ :=
      inv.burnAll_total order distinct fun tokenID mem => closable tokenID ((all tokenID).mp mem)
    refine ⟨σ', burned, left.trans (Finset.sdiff_eq_empty_iff_subset.mpr fun tokenID mem => ?_)⟩
    exact List.mem_toFinset.mpr ((all tokenID).mpr mem)

def sampleChain : Chain where
  self := 1
  factory := 2
  governance := 3
  aToken := 4
  receives := fun _ => true
  ethSupply := 10 ^ 27
  aTokenSupply := 10 ^ 27
  aToken_ne_zero := by decide
  ethSupply_scaled := by decide
  aTokenSupply_scaled := by decide

def sampleMinted : Storage :=
  { initial with
    counter := 2
    shares := 8
    positions := Function.update (Function.update initial.positions 1 ⟨5, 11, 11, 0, 0⟩) 2 ⟨3, 13,
      13, 0, 0⟩
    reserveToken := 8
    owners := Function.update (Function.update initial.owners 1 (some 7)) 2 (some 8)
    tokenBalance := 8 }

def sampleStaked : Storage :=
  { sampleMinted with
    ethState := ⟨0, 80 * ACCUMULATOR_SCALE_FACTOR⟩
    tokenState := ⟨0, 16 * ACCUMULATOR_SCALE_FACTOR⟩
    reserveEth := 80
    reserveToken := 24
    ethBalance := 80
    tokenBalance := 24 }

private theorem sampleMinted_reachable : Reachable sampleChain sampleMinted :=
  .tail (.single (.call ⟨7, 0, 5, 10⟩ (.mint 5) (by unfold Msg.Funded; decide) rfl))
    (.call ⟨8, 0, 3, 12⟩ (.mint 3) (by unfold Msg.Funded; decide) rfl)

theorem sampleStaked_reachable : Reachable sampleChain sampleStaked := by
  have eth : Step sampleChain sampleMinted
      { sampleMinted with
        ethState := sampleStaked.ethState, reserveEth := 80, ethBalance := 80 } := by
    refine .call ⟨9, 80, 0, 20⟩ (.depositEth 42) (by unfold Msg.Funded; decide) ?_
    simp [exec, depositEth, withCircuitBreaker, checkMagic, deposit, mul256, add256, ok_iff,
      map_ok_iff, MAGIC_VALUE, ACCUMULATOR_SCALE_FACTOR, sampleMinted, sampleStaked, initial]
  refine (sampleMinted_reachable.tail eth).tail
    (.call ⟨9, 0, 16, 20⟩ (.depositToken 42 16) (by unfold Msg.Funded; decide) ?_)
  simp [exec, depositToken, withCircuitBreaker, checkMagic, safeTransferFromERC20, deposit, mul256,
    add256, ok_iff, map_ok_iff, MAGIC_VALUE, ACCUMULATOR_SCALE_FACTOR, sampleChain, sampleMinted,
    sampleStaked, initial]

theorem reachable_solvent_minted :
    Reachable sampleChain sampleStaked ∧ Solvent sampleStaked ∧ live sampleStaked = {1, 2} :=
  ⟨sampleStaked_reachable,
    (reachable_solvent sampleChain sampleStaked sampleStaked_reachable).1, by decide⟩

end AliceNet.Bridge.StakingNFT
